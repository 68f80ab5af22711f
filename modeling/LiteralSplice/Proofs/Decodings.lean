/-
The bytes that are decoded.

* **`Utf8.decodeFrom_none_ok`**, **`Utf8.decodeFrom_some_ok`**: what the first byte must have been
  where decoding succeeds, between characters and inside one;
* **`Utf8.decodeFrom_ok_cons`**: the first character that is decoded stands in its own bytes, and
  is no surrogate;
* **`Utf8.decode_eq_ok`**: bytes are decoded exactly if they are those of a text, which is then
  the one that is found;
* **`Utf8.decode_eq_error`**: the bytes of no text are refused.

Design notes: that the bytes of a text are read as the text is shown with the encoding.  This is
the other half: no other bytes are read as it, so overlong forms and surrogates are refused.
-/
import LiteralSplice.Proofs.Encodings

namespace LiteralSplice

namespace Utf8

variable {surrogates : Surrogates} {position : Nat} {p : Partial} {bytes r : Bytes} {t : Text}

/-! ### Byte by byte -/

theorem map_cons_eq_ok {ε α : Type} {x : Except ε (List α)} {a : α} {l : List α}
    (h : x.map (a :: ·) = .ok l) : ∃ l', l = a :: l' ∧ x = .ok l' := by
  rcases x with e | l'
  · cases h
  · exact ⟨l', (Except.ok.inj h).symm, rfl⟩

/-- Between characters, an ASCII byte is a character and any other is the first of one. -/
theorem decodeFrom_none_ok {b : UInt8}
    (h : decodeFrom surrogates position none (b :: r) = .ok t) :
    (b.toNat < 0x80 ∧ ∃ t', t = CodePoint.ofNat b.toNat :: t' ∧
        decodeFrom surrogates (position + 1) none r = .ok t') ∨
      ∃ p, 0x80 ≤ b.toNat ∧ Partial.ofLead? surrogates b = some p ∧
        decodeFrom surrogates (position + 1) (some p) r = .ok t := by
  by_cases hb : b.toNat < 0x80
  · rw [decodeFrom_ascii hb] at h
    exact .inl ⟨hb, map_cons_eq_ok h⟩
  · rcases hp : Partial.ofLead? surrogates b with _ | p
    · rw [decodeFrom, if_neg hb, hp] at h
      cases h
    · rw [decodeFrom_lead hb hp] at h
      exact .inr ⟨p, Nat.le_of_not_lt hb, rfl, h⟩

/-- Inside a character, a byte lies between the bounds and is the last one if one is owed. -/
theorem decodeFrom_some_ok (h : decodeFrom surrogates position (some p) bytes = .ok t) :
    ∃ b r, bytes = b :: r ∧ (p.least ≤ b.toNat ∧ b.toNat ≤ p.greatest) ∧
      (p.owed ≤ 1 → ∃ t', t = CodePoint.ofNat (p.value * 0x40 + b.toNat % 0x40) :: t' ∧
        decodeFrom surrogates (position + 1) none r = .ok t') ∧
      (1 < p.owed → decodeFrom surrogates (position + 1)
          (some ⟨p.first, p.read + 1, p.owed - 1, p.value * 0x40 + b.toNat % 0x40, 0x80, 0xBF⟩) r
        = .ok t) := by
  rcases bytes with _ | ⟨b, r⟩
  · rw [decodeFrom] at h
    cases h
  by_cases hb : p.least ≤ b.toNat ∧ b.toNat ≤ p.greatest
  · refine ⟨b, r, rfl, hb, fun howed => ?_, fun howed => ?_⟩
    · rw [decodeFrom_last hb howed] at h
      exact map_cons_eq_ok h
    · rwa [decodeFrom_inner hb howed] at h
  · rw [decodeFrom, if_neg hb] at h
    cases h

/-- The last byte of a character. -/
theorem decodeFrom_ok_last {first : UInt8} {read value least greatest : Nat}
    (h : decodeFrom surrogates position (some ⟨first, read, 1, value, least, greatest⟩) bytes
      = .ok t) :
    ∃ b r t', bytes = b :: r ∧ least ≤ b.toNat ∧ b.toNat ≤ greatest ∧
      t = CodePoint.ofNat (value * 0x40 + b.toNat % 0x40) :: t' ∧
      decodeFrom surrogates (position + 1) none r = .ok t' := by
  obtain ⟨b, r, rfl, ⟨hleast, hgreatest⟩, hlast, -⟩ := decodeFrom_some_ok h
  obtain ⟨t', rfl, ht'⟩ := hlast (Nat.le_refl 1)
  exact ⟨b, r, t', rfl, hleast, hgreatest, rfl, ht'⟩

/-- A byte of a character that is not its last one. -/
theorem decodeFrom_ok_inner {first : UInt8} {read owed value least greatest : Nat}
    (h : decodeFrom surrogates position
      (some ⟨first, read, owed + 2, value, least, greatest⟩) bytes = .ok t) :
    ∃ b r, bytes = b :: r ∧ least ≤ b.toNat ∧ b.toNat ≤ greatest ∧
      decodeFrom surrogates (position + 1)
        (some ⟨first, read + 1, owed + 1, value * 0x40 + b.toNat % 0x40, 0x80, 0xBF⟩) r
        = .ok t := by
  obtain ⟨b, r, rfl, ⟨hleast, hgreatest⟩, -, hinner⟩ := decodeFrom_some_ok h
  exact ⟨b, r, rfl, hleast, hgreatest, hinner (by simp)⟩

/-! ### Character by character -/

theorem eq_ofNat {b : UInt8} {n : Nat} (h : b.toNat = n) : b = UInt8.ofNat n := by
  rw [← h, UInt8.ofNat_toNat]

theorem val_ofNat {n : Nat} (h : n < 0x110000) : (CodePoint.ofNat n).val = n := Nat.mod_eq_of_lt h

theorem isSurrogate_ofNat {n : Nat} (h : n < 0x110000) (hn : n < 0xD800 ∨ 0xDFFF < n) :
    (CodePoint.ofNat n).isSurrogate = false := by
  rw [CodePoint.isSurrogate, val_ofNat h, Bool.and_eq_false_iff]
  simp only [decide_eq_false_iff_not]
  omega

/-- The character that is decoded first stands in its own bytes, and is no surrogate. -/
theorem decodeFrom_ok_cons (h : decodeFrom .refused position none bytes = .ok t)
    (hbytes : bytes ≠ []) :
    ∃ c t' next r, t = c :: t' ∧ c.isSurrogate = false ∧ bytes = bytesOf c ++ r ∧
      decodeFrom .refused next none r = .ok t' := by
  obtain ⟨b, r, rfl⟩ := List.exists_cons_of_ne_nil hbytes
  have hb : b.toNat < 256 := b.toNat_lt
  rcases decodeFrom_none_ok h with ⟨hascii, t', rfl, hrest⟩ | ⟨p, hbeyond, hp, hinside⟩
  · refine ⟨_, t', _, r, rfl, isSurrogate_ofNat (by omega) (by omega), ?_, hrest⟩
    rw [bytesOf, val_ofNat (by omega)]
    simp only [if_pos hascii, List.singleton_append, UInt8.ofNat_toNat]
  rw [Partial.ofLead?] at hp
  simp only at hp
  -- The first byte says how many are to follow.
  split at hp
  · cases hp
  split at hp
  · -- Two bytes.
    obtain rfl := Option.some.inj hp
    obtain ⟨b₂, r₂, t', rfl, hl, hg, rfl, hrest⟩ := decodeFrom_ok_last hinside
    refine ⟨_, t', _, r₂, rfl, isSurrogate_ofNat (by omega) (by omega), ?_, hrest⟩
    rw [bytesOf, val_ofNat (by omega), if_neg (by omega), if_pos (by omega),
      ← eq_ofNat (b := b) (by omega), ← eq_ofNat (b := b₂) (by omega)]
    rfl
  split at hp
  · -- Three bytes: the bounds on the second one leave out overlong forms and surrogates.
    obtain rfl := Option.some.inj hp
    obtain ⟨b₂, r₂, rfl, hl, hg, hinside₂⟩ := decodeFrom_ok_inner hinside
    obtain ⟨b₃, r₃, t', rfl, hl₃, hg₃, rfl, hrest⟩ := decodeFrom_ok_last hinside₂
    simp only [and_true] at hl hg
    have hlong : b.toNat = 0xE0 → 0xA0 ≤ b₂.toNat := fun he => by rwa [if_pos he] at hl
    have hshort : b.toNat = 0xED → b₂.toNat ≤ 0x9F := fun he => by rwa [if_pos he] at hg
    have hl' : 0x80 ≤ b₂.toNat := by split at hl <;> omega
    have hg' : b₂.toNat ≤ 0xBF := by split at hg <;> omega
    refine ⟨_, t', _, r₃, rfl, isSurrogate_ofNat (by omega) (by omega), ?_, hrest⟩
    rw [bytesOf, val_ofNat (by omega), if_neg (by omega), if_neg (by omega), if_pos (by omega),
      ← eq_ofNat (b := b) (by omega), ← eq_ofNat (b := b₂) (by omega),
      ← eq_ofNat (b := b₃) (by omega)]
    rfl
  split at hp
  · -- Four bytes: they leave out what is past the last code point, too.
    obtain rfl := Option.some.inj hp
    obtain ⟨b₂, r₂, rfl, hl, hg, hinside₂⟩ := decodeFrom_ok_inner hinside
    obtain ⟨b₃, r₃, rfl, hl₃, hg₃, hinside₃⟩ := decodeFrom_ok_inner hinside₂
    obtain ⟨b₄, r₄, t', rfl, hl₄, hg₄, rfl, hrest⟩ := decodeFrom_ok_last hinside₃
    have hlong : b.toNat = 0xF0 → 0x90 ≤ b₂.toNat := fun he => by rwa [if_pos he] at hl
    have hshort : b.toNat = 0xF4 → b₂.toNat ≤ 0x8F := fun he => by rwa [if_pos he] at hg
    have hl' : 0x80 ≤ b₂.toNat := by split at hl <;> omega
    have hg' : b₂.toNat ≤ 0xBF := by split at hg <;> omega
    refine ⟨_, t', _, r₄, rfl, isSurrogate_ofNat (by omega) (by omega), ?_, hrest⟩
    rw [bytesOf, val_ofNat (by omega), if_neg (by omega), if_neg (by omega), if_neg (by omega),
      ← eq_ofNat (b := b) (by omega), ← eq_ofNat (b := b₂) (by omega),
      ← eq_ofNat (b := b₃) (by omega), ← eq_ofNat (b := b₄) (by omega)]
    rfl
  · cases hp

theorem decodeFrom_ok (h : decodeFrom .refused position none bytes = .ok t) :
    t.Plain ∧ bytes = t.flatMap bytesOf := by
  induction t generalizing position bytes with
  | nil =>
    rcases bytes with _ | ⟨b, r⟩
    · exact ⟨nofun, rfl⟩
    · obtain ⟨c, t', next, r, hcons, -⟩ := decodeFrom_ok_cons h (List.cons_ne_nil b r)
      cases hcons
  | cons c t ih =>
    have hbytes : bytes ≠ [] := by
      rintro rfl
      rw [decodeFrom] at h
      cases h
    obtain ⟨c, t, next, r, ⟨⟩, hc, rfl, hrest⟩ := decodeFrom_ok_cons h hbytes
    obtain ⟨hplain, rfl⟩ := ih hrest
    exact ⟨hplain.cons hc, (List.flatMap_cons).symm⟩

/-! ### Whole files -/

/-- Bytes are decoded exactly if they are those of a text, which is then the one that is found. -/
theorem decode_eq_ok : decode bytes = .ok t ↔ encode t = .ok bytes :=
  ⟨fun h => encode_ok.mpr (decodeFrom_ok h), decode_encode⟩

theorem decode_eq_error : (∃ fault, decode bytes = .error fault) ↔ ∀ t, encode t ≠ .ok bytes := by
  rcases hdecode : decode bytes with fault | t
  · refine ⟨fun _ t ht => ?_, fun _ => ⟨fault, rfl⟩⟩
    cases hdecode.symm.trans (decode_encode ht)
  · exact ⟨nofun, fun h => absurd (decode_eq_ok.mp hdecode) (h t)⟩

end Utf8

end LiteralSplice
