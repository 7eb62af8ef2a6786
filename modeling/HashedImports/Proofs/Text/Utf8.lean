import HashedImports.Text.Utf8
import Mathlib.Data.List.Basic

namespace HashedImports.Text.Utf8

lemma toNat_ofNat {n : Nat} (h : n < 0xD800 ∨ 0xDFFF < n ∧ n < 0x110000) :
    (Char.ofNat n).toNat = n := by
  have hv : n.isValidChar := h
  rw [Char.ofNat, dif_pos hv]
  rfl

lemma toNat_lt (c : Char) : c.toNat < 0xD800 ∨ 0xDFFF < c.toNat ∧ c.toNat < 0x110000 := by
  rcases c.valid with h | h
  · exact Or.inl h
  · exact Or.inr h

lemma byte_toNat {n : Nat} (h : n < 256) : (UInt8.ofNat n).toNat = n := by
  rw [UInt8.toNat_ofNat']
  exact Nat.mod_eq_of_lt h

lemma byte_eq {n : Nat} {b : UInt8} (h : n = b.toNat) : UInt8.ofNat n = b := by
  rw [h, UInt8.ofNat_toNat]

lemma encodeChar_eq (c : Char) : String.utf8EncodeChar c =
    if c.toNat ≤ 0x7f then [UInt8.ofNat c.toNat]
    else if c.toNat ≤ 0x7ff then
      [UInt8.ofNat (c.toNat / 64 % 0x20 + 0xc0), UInt8.ofNat (c.toNat % 0x40 + 0x80)]
    else if c.toNat ≤ 0xffff then
      [UInt8.ofNat (c.toNat / 4096 % 0x10 + 0xe0), UInt8.ofNat (c.toNat / 64 % 0x40 + 0x80),
        UInt8.ofNat (c.toNat % 0x40 + 0x80)]
    else
      [UInt8.ofNat (c.toNat / 262144 % 0x08 + 0xf0), UInt8.ofNat (c.toNat / 4096 % 0x40 + 0x80),
        UInt8.ofNat (c.toNat / 64 % 0x40 + 0x80), UInt8.ofNat (c.toNat % 0x40 + 0x80)] := rfl

/-! ## What was written is read -/

lemma read_begin {pos : Nat} {b : UInt8} {p : Begun} (bs : List UInt8) (hb : 0x80 ≤ b.toNat)
    (h : begin? pos b = some p) : read none pos (b :: bs) = read (some p) (pos + 1) bs := by
  rw [read, if_neg (by omega), h]

lemma read_last {pos n : Nat} {p : Begun} (bs : List UInt8) (hn : n < 256)
    (hb : p.low ≤ n ∧ n ≤ p.high) (hm : p.missing = 1) :
    read (some p) pos (UInt8.ofNat n :: bs) =
      (read none (pos + 1) bs).map (Char.ofNat (64 * p.value + (n - 0x80)) :: ·) := by
  rw [read, byte_toNat hn, if_pos hb]
  dsimp only
  rw [if_pos (by omega)]

lemma read_more {pos n : Nat} {p : Begun} (bs : List UInt8) (hn : n < 256)
    (hb : p.low ≤ n ∧ n ≤ p.high) (hm : 1 < p.missing) :
    read (some p) pos (UInt8.ofNat n :: bs) =
      read (some ⟨p.start, p.byte, p.missing - 1, 0x80, 0xBF, 64 * p.value + (n - 0x80)⟩)
        (pos + 1) bs := by
  rw [read, byte_toNat hn, if_pos hb]
  dsimp only
  rw [if_neg (by omega)]

lemma exists_begin (pos n : Nat) (hn : n < 256) (h : 0xC2 ≤ n ∧ n ≤ 0xF4) :
    ∃ p, begin? pos (UInt8.ofNat n) = some p ∧
      (n ≤ 0xDF → p.missing = 1 ∧ p.low = 0x80 ∧ p.high = 0xBF ∧ p.value = n - 0xC0) ∧
      (0xE0 ≤ n → n ≤ 0xEF → p.missing = 2 ∧ p.low = (if n = 0xE0 then 0xA0 else 0x80) ∧
        p.high = (if n = 0xED then 0x9F else 0xBF) ∧ p.value = n - 0xE0) ∧
      (0xF0 ≤ n → p.missing = 3 ∧ p.low = (if n = 0xF0 then 0x90 else 0x80) ∧
        p.high = (if n = 0xF4 then 0x8F else 0xBF) ∧ p.value = n - 0xF0) := by
  unfold begin?
  rw [byte_toNat hn]
  dsimp only
  split
  · refine ⟨_, rfl, fun _ => ⟨rfl, rfl, rfl, rfl⟩, fun _ _ => by omega, fun _ => by omega⟩
  split
  · refine ⟨_, rfl, fun _ => by omega, fun _ _ => ?_, fun _ => by omega⟩
    simp_all
  split
  · refine ⟨_, rfl, fun _ => by omega, fun _ _ => ?_, fun _ => by omega⟩
    simp_all
  split
  · refine ⟨_, rfl, fun _ => by omega, fun _ _ => ?_, fun _ => by omega⟩
    simp_all
  split
  · refine ⟨_, rfl, fun _ => by omega, fun _ _ => by omega, fun _ => ?_⟩
    simp_all
  split
  · refine ⟨_, rfl, fun _ => by omega, fun _ _ => by omega, fun _ => ?_⟩
    have h₂ : n ≠ 0xF4 := by omega
    simp [h₂]
  split
  · refine ⟨_, rfl, fun _ => by omega, fun _ _ => by omega, fun _ => ?_⟩
    simp_all
  · omega

lemma read_encodeChar (c : Char) (pos : Nat) (bs : List UInt8) :
    ∃ pos', read none pos (String.utf8EncodeChar c ++ bs) =
      (read none pos' bs).map (c :: ·) := by
  have hv := toNat_lt c
  have hc : ∀ n, n = c.toNat → Char.ofNat n = c := fun n hn => by rw [hn, Char.ofNat_toNat]
  rw [encodeChar_eq]
  split
  · next h₁ =>
    refine ⟨pos + 1, ?_⟩
    rw [List.singleton_append, read, byte_toNat (by omega), if_pos (by omega), hc _ rfl]
  split
  · next h₁ h₂ =>
    obtain ⟨p, hp, hp₂, -, -⟩ := exists_begin pos (c.toNat / 64 % 0x20 + 0xc0) (by omega)
      (by omega)
    obtain ⟨hm, hl, hh, hval⟩ := hp₂ (by omega)
    refine ⟨pos + 1 + 1, ?_⟩
    simp only [List.cons_append, List.nil_append]
    rw [read_begin _ (by rw [byte_toNat] <;> omega) hp, read_last _ (by omega) (by omega) hm,
      hc _ (by omega)]
  split
  · next h₁ h₂ h₃ =>
    obtain ⟨p, hp, -, hp₃, -⟩ := exists_begin pos (c.toNat / 4096 % 0x10 + 0xe0) (by omega)
      (by omega)
    obtain ⟨hm, hl, hh, hval⟩ := hp₃ (by omega) (by omega)
    have hsecond : p.low ≤ c.toNat / 64 % 0x40 + 0x80 ∧ c.toNat / 64 % 0x40 + 0x80 ≤ p.high := by
      split at hl <;> split at hh <;> omega
    refine ⟨pos + 1 + 1 + 1, ?_⟩
    simp only [List.cons_append, List.nil_append]
    rw [read_begin _ (by rw [byte_toNat] <;> omega) hp, read_more _ (by omega) hsecond (by omega),
      read_last _ (by omega) (by dsimp only; omega) (by dsimp only; omega)]
    dsimp only
    rw [hc _ (by omega)]
  · next h₁ h₂ h₃ =>
    obtain ⟨p, hp, -, -, hp₄⟩ := exists_begin pos (c.toNat / 262144 % 0x08 + 0xf0) (by omega)
      (by omega)
    obtain ⟨hm, hl, hh, hval⟩ := hp₄ (by omega)
    have hsecond : p.low ≤ c.toNat / 4096 % 0x40 + 0x80 ∧
        c.toNat / 4096 % 0x40 + 0x80 ≤ p.high := by
      split at hl <;> split at hh <;> omega
    refine ⟨pos + 1 + 1 + 1 + 1, ?_⟩
    simp only [List.cons_append, List.nil_append]
    rw [read_begin _ (by rw [byte_toNat] <;> omega) hp, read_more _ (by omega) hsecond (by omega),
      read_more _ (by omega) (by dsimp only; omega) (by dsimp only; omega),
      read_last _ (by omega) (by dsimp only; omega) (by dsimp only; omega)]
    dsimp only
    rw [hc _ (by omega)]

lemma read_encode (cs : List Char) (pos : Nat) : read none pos (encode cs) = .ok cs := by
  induction cs generalizing pos with
  | nil => rfl
  | cons c cs ih =>
    obtain ⟨pos', hp⟩ := read_encodeChar c pos (encode cs)
    rw [encode, List.flatMap_cons]
    exact hp.trans (by rw [ih]; rfl)

theorem decode_encode (cs : List Char) : decode (encode cs) = .ok cs :=
  read_encode cs 0

/-! ## What was read is written again -/

lemma map_eq_ok {α β ε : Type} {f : α → β} {r : Except ε α} {b : β} (h : r.map f = .ok b) :
    ∃ a, r = .ok a ∧ f a = b := by
  cases r with
  | error e => cases h
  | ok a => exact ⟨a, rfl, Except.ok.inj h⟩

lemma next_of_read {p : Begun} {pos : Nat} {bs : List UInt8} {cs : List Char}
    (h : read (some p) pos bs = .ok cs) :
    ∃ b bs', bs = b :: bs' ∧ p.low ≤ b.toNat ∧ b.toNat ≤ p.high ∧
      (p.missing ≤ 1 → ∃ cs', cs = Char.ofNat (64 * p.value + (b.toNat - 0x80)) :: cs' ∧
        read none (pos + 1) bs' = .ok cs') ∧
      (1 < p.missing → read (some ⟨p.start, p.byte, p.missing - 1, 0x80, 0xBF,
        64 * p.value + (b.toNat - 0x80)⟩) (pos + 1) bs' = .ok cs) := by
  cases bs with
  | nil => simp [read] at h
  | cons b bs =>
    rw [read] at h
    split at h
    · next hb =>
      dsimp only at h
      refine ⟨b, bs, rfl, hb.1, hb.2, fun hm => ?_, fun hm => ?_⟩
      · rw [if_pos hm] at h
        obtain ⟨cs', hr, he⟩ := map_eq_ok h
        exact ⟨cs', he.symm, hr⟩
      · rwa [if_neg (by omega)] at h
    · cases h

lemma encode_cons (c : Char) (cs : List Char) :
    encode (c :: cs) = String.utf8EncodeChar c ++ encode cs := rfl

lemma range_of_begin? {pos : Nat} {b : UInt8} {p : Begun} (h : begin? pos b = some p) :
    0xC2 ≤ b.toNat ∧ b.toNat ≤ 0xF4 := by
  by_contra hb
  unfold begin? at h
  dsimp only at h
  rw [if_neg (by omega), if_neg (by omega), if_neg (by omega), if_neg (by omega),
    if_neg (by omega), if_neg (by omega), if_neg (by omega)] at h
  cases h

section Composed

variable {b b₂ b₃ b₄ : UInt8}

lemma encodeChar_of_two (hb : 0xC2 ≤ b.toNat ∧ b.toNat ≤ 0xDF)
    (h₂ : 0x80 ≤ b₂.toNat ∧ b₂.toNat ≤ 0xBF) :
    String.utf8EncodeChar (Char.ofNat (64 * (b.toNat - 0xC0) + (b₂.toNat - 0x80))) = [b, b₂] := by
  rw [encodeChar_eq, toNat_ofNat (by omega), if_neg (by omega), if_pos (by omega),
    byte_eq (b := b) (by omega), byte_eq (b := b₂) (by omega)]

lemma encodeChar_of_three (hb : 0xE0 ≤ b.toNat ∧ b.toNat ≤ 0xEF)
    (hlow : (if b.toNat = 0xE0 then 0xA0 else 0x80) ≤ b₂.toNat)
    (hhigh : b₂.toNat ≤ if b.toNat = 0xED then 0x9F else 0xBF)
    (h₃ : 0x80 ≤ b₃.toNat ∧ b₃.toNat ≤ 0xBF) :
    String.utf8EncodeChar (Char.ofNat
      (64 * (64 * (b.toNat - 0xE0) + (b₂.toNat - 0x80)) + (b₃.toNat - 0x80))) = [b, b₂, b₃] := by
  generalize hv : 64 * (64 * (b.toNat - 0xE0) + (b₂.toNat - 0x80)) + (b₃.toNat - 0x80) = v
  have hsecond : 0x80 ≤ b₂.toNat ∧ b₂.toNat ≤ 0xBF := by
    split at hlow <;> split at hhigh <;> omega
  have hlong : 0x800 ≤ v := by
    split at hlow <;> omega
  have hvalid : v < 0xD800 ∨ 0xDFFF < v ∧ v < 0x110000 := by
    split at hhigh <;> omega
  rw [encodeChar_eq, toNat_ofNat hvalid, if_neg (by omega), if_neg (by omega), if_pos (by omega),
    byte_eq (b := b) (by omega), byte_eq (b := b₂) (by omega), byte_eq (b := b₃) (by omega)]

lemma encodeChar_of_four (hb : 0xF0 ≤ b.toNat ∧ b.toNat ≤ 0xF4)
    (hlow : (if b.toNat = 0xF0 then 0x90 else 0x80) ≤ b₂.toNat)
    (hhigh : b₂.toNat ≤ if b.toNat = 0xF4 then 0x8F else 0xBF)
    (h₃ : 0x80 ≤ b₃.toNat ∧ b₃.toNat ≤ 0xBF) (h₄ : 0x80 ≤ b₄.toNat ∧ b₄.toNat ≤ 0xBF) :
    String.utf8EncodeChar (Char.ofNat
      (64 * (64 * (64 * (b.toNat - 0xF0) + (b₂.toNat - 0x80)) + (b₃.toNat - 0x80)) +
        (b₄.toNat - 0x80))) = [b, b₂, b₃, b₄] := by
  generalize hv : 64 * (64 * (64 * (b.toNat - 0xF0) + (b₂.toNat - 0x80)) + (b₃.toNat - 0x80)) +
    (b₄.toNat - 0x80) = v
  have hsecond : 0x80 ≤ b₂.toNat ∧ b₂.toNat ≤ 0xBF := by
    split at hlow <;> split at hhigh <;> omega
  have hlong : 0x10000 ≤ v := by
    split at hlow <;> omega
  have hshort : v < 0x110000 := by
    split at hhigh <;> omega
  rw [encodeChar_eq, toNat_ofNat (by omega), if_neg (by omega), if_neg (by omega),
    if_neg (by omega), byte_eq (b := b) (by omega), byte_eq (b := b₂) (by omega),
    byte_eq (b := b₃) (by omega), byte_eq (b := b₄) (by omega)]

end Composed

lemma exists_char_of_read {pos : Nat} {b : UInt8} {bs : List UInt8} {cs : List Char}
    (h : read none pos (b :: bs) = .ok cs) :
    ∃ c cs' bs' pos', cs = c :: cs' ∧ b :: bs = String.utf8EncodeChar c ++ bs' ∧
      read none pos' bs' = .ok cs' := by
  by_cases hb : b.toNat < 0x80
  · rw [read, if_pos hb] at h
    obtain ⟨cs', hr, rfl⟩ := map_eq_ok h
    refine ⟨_, cs', bs, _, rfl, ?_, hr⟩
    rw [encodeChar_eq, toNat_ofNat (by omega), if_pos (by omega), byte_eq rfl]
    rfl
  rw [read, if_neg hb] at h
  split at h
  · cases h
  next p hp =>
  have hrange := range_of_begin? hp
  obtain ⟨p', hp', hp₂, hp₃, hp₄⟩ := exists_begin pos b.toNat b.toNat_lt hrange
  rw [UInt8.ofNat_toNat, hp] at hp'
  obtain rfl := Option.some.inj hp'
  -- How many bytes come after the first is told by the first.
  obtain ⟨b₂, bs₂, rfl, hl₂, hh₂, hlast₂, hmore₂⟩ := next_of_read h
  by_cases h₂ : b.toNat ≤ 0xDF
  · obtain ⟨hm, hl, hh, hval⟩ := hp₂ h₂
    obtain ⟨cs', rfl, hr⟩ := hlast₂ (by omega)
    refine ⟨_, cs', bs₂, _, rfl, ?_, hr⟩
    rw [hval, encodeChar_of_two (by omega) (by omega)]
    rfl
  by_cases h₃ : b.toNat ≤ 0xEF
  · obtain ⟨hm, hl, hh, hval⟩ := hp₃ (by omega) h₃
    obtain ⟨b₃, bs₃, rfl, hl₃, hh₃, hlast₃, -⟩ := next_of_read (hmore₂ (by omega))
    obtain ⟨cs', rfl, hr⟩ := hlast₃ (by dsimp only; omega)
    refine ⟨_, cs', bs₃, _, rfl, ?_, hr⟩
    dsimp only
    rw [hval, encodeChar_of_three (by omega) (hl ▸ hl₂) (hh ▸ hh₂) ⟨hl₃, hh₃⟩]
    rfl
  · obtain ⟨hm, hl, hh, hval⟩ := hp₄ (by omega)
    obtain ⟨b₃, bs₃, rfl, hl₃, hh₃, -, hmore₃⟩ := next_of_read (hmore₂ (by omega))
    obtain ⟨b₄, bs₄, rfl, hl₄, hh₄, hlast₄, -⟩ := next_of_read (hmore₃ (by dsimp only; omega))
    obtain ⟨cs', rfl, hr⟩ := hlast₄ (by dsimp only; omega)
    refine ⟨_, cs', bs₄, _, rfl, ?_, hr⟩
    dsimp only
    rw [hval, encodeChar_of_four (by omega) (hl ▸ hl₂) (hh ▸ hh₂) ⟨hl₃, hh₃⟩ ⟨hl₄, hh₄⟩]
    rfl

lemma encode_of_read {pos : Nat} {bs : List UInt8} {cs : List Char}
    (h : read none pos bs = .ok cs) : encode cs = bs := by
  induction cs generalizing pos bs with
  | nil =>
    cases bs with
    | nil => rfl
    | cons b bs =>
      obtain ⟨c, cs', _, _, he, -⟩ := exists_char_of_read h
      cases he
  | cons c cs ih =>
    cases bs with
    | nil => cases h
    | cons b bs =>
      obtain ⟨c', cs', bs', pos', he, hb, hr⟩ := exists_char_of_read h
      obtain ⟨rfl, rfl⟩ := List.cons.inj he
      rw [encode_cons, ih hr, hb]

theorem encode_of_decode {bs : List UInt8} {cs : List Char} (h : decode bs = .ok cs) :
    encode cs = bs :=
  encode_of_read h

end HashedImports.Text.Utf8
