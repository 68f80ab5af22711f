/-
Texts as bytes and back.

* **`Utf8.encode_ok`**: a text without surrogates has bytes, and no other has;
* **`Utf8.decodeWith_encode`**: decoding the bytes of a text gives the text, whether surrogates are
  let through or not.

Design notes: decoding is followed one code point at a time.  The bytes of a code point are a
lead and up to three bytes that continue it, and each of the lemmas on `Utf8.decodeFrom` is about
one byte.
-/
import LiteralSplice.Proofs.Texts
import LiteralSplice.Text.Utf8
import Mathlib.Data.List.TakeWhile

namespace LiteralSplice

/-- A text without surrogates; no other has bytes. -/
abbrev Text.Plain (t : Text) : Prop := ∀ c ∈ t, c.isSurrogate = false

theorem CodePoint.isSurrogate_of_isDigit {c : CodePoint} (h : c.isDigit = true) :
    c.isSurrogate = false := by
  rw [isDigit, Bool.and_eq_true, decide_eq_true_eq, decide_eq_true_eq] at h
  rw [isSurrogate, Bool.and_eq_false_iff, decide_eq_false_iff_not]
  omega

namespace Text

theorem plain_of_all {t : Text} (h : (t.all fun c => !c.isSurrogate) = true) : t.Plain := by
  intro c hc
  simpa using List.all_eq_true.mp h c hc

theorem Plain.append {s t : Text} (hs : s.Plain) (ht : t.Plain) : Plain (s ++ t) :=
  List.forall_mem_append.mpr ⟨hs, ht⟩

theorem Plain.cons {c : CodePoint} {t : Text} (hc : c.isSurrogate = false) (ht : t.Plain) :
    Plain (c :: t) :=
  List.forall_mem_cons.mpr ⟨hc, ht⟩

theorem plain_ofNat (n : Nat) : (ofNat n).Plain := fun _ hc =>
  CodePoint.isSurrogate_of_isDigit (isDigit_of_mem_ofNat hc)

end Text

namespace Utf8

/-! ### Encoding -/

/-- There is no first code point that is refused exactly if none is. -/
theorem firstRun?_eq_none {refused : CodePoint → Bool} {t : Text} :
    firstRun? refused t = none ↔ ∀ c ∈ t, refused c = false := by
  simp only [firstRun?]
  rcases hrest : t.dropWhile (fun c => !refused c) with _ | ⟨c, rest⟩
  · simp only [true_iff]
    intro c hc
    have hall := List.dropWhile_eq_nil_iff.mp hrest c hc
    simpa using hall
  · simp only [reduceCtorEq, false_iff]
    intro hall
    -- The first code point that is not passed over is refused.
    have hmem : c ∈ t.dropWhile (fun c => !refused c) := hrest ▸ List.mem_cons_self
    have hhead : ¬ (!refused c) = true := by
      have hne : t.dropWhile (fun c => !refused c) ≠ [] := by
        rw [hrest]
        exact List.cons_ne_nil c rest
      have hnot := List.head_dropWhile_not (fun c : CodePoint => !refused c) hne
      simp only [hrest, List.head_cons] at hnot
      simp [hnot]
    have hc := hall c ((List.dropWhile_sublist _).subset hmem)
    rw [hc] at hhead
    exact absurd rfl hhead

theorem surrogateRun?_eq_none {t : Text} : surrogateRun? t = none ↔ t.Plain := firstRun?_eq_none

theorem encode_ok {t : Text} {bytes : Bytes} :
    encode t = .ok bytes ↔ t.Plain ∧ bytes = t.flatMap bytesOf := by
  rw [encode, ← surrogateRun?_eq_none]
  rcases surrogateRun? t with _ | run
  · refine ⟨fun h => ⟨rfl, ?_⟩, fun h => ?_⟩
    · cases h
      rfl
    · rw [h.2]
  · exact ⟨nofun, nofun⟩

/-! ### Decoding, byte by byte -/

variable {surrogates : Surrogates} {position : Nat} {b : UInt8} {r : Bytes} {p : Partial}

theorem decodeFrom_ascii (h : b.toNat < 0x80) :
    decodeFrom surrogates position none (b :: r)
      = (decodeFrom surrogates (position + 1) none r).map (CodePoint.ofNat b.toNat :: ·) := by
  rw [decodeFrom, if_pos h]
  rcases decodeFrom surrogates (position + 1) none r with fault | t <;> rfl

theorem decodeFrom_lead (h : ¬ b.toNat < 0x80) (hp : Partial.ofLead? surrogates b = some p) :
    decodeFrom surrogates position none (b :: r)
      = decodeFrom surrogates (position + 1) (some p) r := by
  rw [decodeFrom, if_neg h, hp]

theorem decodeFrom_inner (h : p.least ≤ b.toNat ∧ b.toNat ≤ p.greatest) (howed : 1 < p.owed) :
    decodeFrom surrogates position (some p) (b :: r)
      = decodeFrom surrogates (position + 1)
          (some ⟨p.first, p.read + 1, p.owed - 1, p.value * 0x40 + b.toNat % 0x40, 0x80, 0xBF⟩)
          r := by
  rw [decodeFrom, if_pos h, if_neg (Nat.not_le.mpr howed)]

theorem decodeFrom_last (h : p.least ≤ b.toNat ∧ b.toNat ≤ p.greatest) (howed : p.owed ≤ 1) :
    decodeFrom surrogates position (some p) (b :: r)
      = (decodeFrom surrogates (position + 1) none r).map
          (CodePoint.ofNat (p.value * 0x40 + b.toNat % 0x40) :: ·) := by
  rw [decodeFrom, if_pos h, if_pos howed]
  rcases decodeFrom surrogates (position + 1) none r with fault | t <;> rfl

/-! ### Decoding, code point by code point -/

theorem toNat_ofNat_of_lt {n : Nat} (h : n < 256) : (UInt8.ofNat n).toNat = n := by
  rw [UInt8.toNat_ofNat']
  exact Nat.mod_eq_of_lt h

theorem ofNat_val (c : CodePoint) : CodePoint.ofNat c.val = c := by
  rw [CodePoint.ofNat, Fin.ofNat]
  exact Fin.ext (Nat.mod_eq_of_lt c.isLt)

/-- A zero byte stands for the first code point, and is part of no longer form. -/
theorem eq_zero_of_mem_bytesOf {c : CodePoint} (h : 0 ∈ bytesOf c) : c = CodePoint.ofNat 0 := by
  have hlt := c.isLt
  have hbyte : ∀ n, 0 < n → n < 256 → (0 : UInt8) ≠ UInt8.ofNat n := by
    intro n hpos hn hzero
    have hn0 := congrArg UInt8.toNat hzero
    rw [toNat_ofNat_of_lt hn] at hn0
    exact absurd hn0 (Nat.ne_of_lt hpos)
  rw [bytesOf] at h
  by_cases h0 : c.val = 0
  · exact Fin.ext h0
  · exfalso
    split at h
    · exact hbyte _ (by omega) (by omega) (List.mem_singleton.mp h)
    -- Each byte of a longer form has a bit of its own set.
    split at h
    · simp only [List.mem_cons, List.not_mem_nil, or_false] at h
      rcases h with h | h <;> exact hbyte _ (by omega) (by omega) h
    split at h
    · simp only [List.mem_cons, List.not_mem_nil, or_false] at h
      rcases h with h | h | h <;> exact hbyte _ (by omega) (by omega) h
    · simp only [List.mem_cons, List.not_mem_nil, or_false] at h
      rcases h with h | h | h | h <;> exact hbyte _ (by omega) (by omega) h

/-! The leading byte of a form says how many bytes follow it, and each of them has six bits. -/

theorem decodeFrom_two {c : CodePoint} (h : ¬ c.val < 0x80) (h' : c.val < 0x800)
    (position : Nat) (r : Bytes) :
    decodeFrom surrogates position none
        (UInt8.ofNat (0xC0 + c.val / 0x40) :: UInt8.ofNat (0x80 + c.val % 0x40) :: r)
      = (decodeFrom surrogates (position + 1 + 1) none r).map (c :: ·) := by
  have hb1 := toNat_ofNat_of_lt (n := 0xC0 + c.val / 0x40) (by omega)
  have hb2 := toNat_ofNat_of_lt (n := 0x80 + c.val % 0x40) (by omega)
  have hlead : Partial.ofLead? surrogates (UInt8.ofNat (0xC0 + c.val / 0x40))
      = some ⟨UInt8.ofNat (0xC0 + c.val / 0x40), 1, 1, c.val / 0x40, 0x80, 0xBF⟩ := by
    rw [Partial.ofLead?, hb1]
    simp only
    rw [if_neg (by omega), if_pos (by omega)]
    simp only [Option.some.injEq, Partial.mk.injEq, true_and, and_true]
    omega
  have hvalue : c.val / 0x40 * 0x40 + (0x80 + c.val % 0x40) % 0x40 = c.val := by omega
  rw [decodeFrom_lead (by omega) hlead, decodeFrom_last (by simp only [hb2]; omega) (by simp)]
  simp only [hb2, hvalue, ofNat_val]

theorem decodeFrom_three {c : CodePoint} (hc : c.val < 0xD800 ∨ 0xDFFF < c.val)
    (h : ¬ c.val < 0x800) (h' : c.val < 0x10000) (position : Nat) (r : Bytes) :
    decodeFrom surrogates position none (UInt8.ofNat (0xE0 + c.val / 0x1000) ::
        UInt8.ofNat (0x80 + c.val / 0x40 % 0x40) :: UInt8.ofNat (0x80 + c.val % 0x40) :: r)
      = (decodeFrom surrogates (position + 1 + 1 + 1) none r).map (c :: ·) := by
  have hb1 := toNat_ofNat_of_lt (n := 0xE0 + c.val / 0x1000) (by omega)
  have hb2 := toNat_ofNat_of_lt (n := 0x80 + c.val / 0x40 % 0x40) (by omega)
  have hb3 := toNat_ofNat_of_lt (n := 0x80 + c.val % 0x40) (by omega)
  have hlead : Partial.ofLead? surrogates (UInt8.ofNat (0xE0 + c.val / 0x1000))
      = some ⟨UInt8.ofNat (0xE0 + c.val / 0x1000), 1, 2, c.val / 0x1000,
          if 0xE0 + c.val / 0x1000 = 0xE0 then 0xA0 else 0x80,
          if 0xE0 + c.val / 0x1000 = 0xED ∧ surrogates = .refused then 0x9F else 0xBF⟩ := by
    rw [Partial.ofLead?, hb1]
    simp only
    rw [if_neg (by omega), if_neg (by omega), if_pos (by omega)]
    simp only [Option.some.injEq, Partial.mk.injEq, true_and, and_true]
    omega
  have hvalue : (c.val / 0x1000 * 0x40 + (0x80 + c.val / 0x40 % 0x40) % 0x40) * 0x40
      + (0x80 + c.val % 0x40) % 0x40 = c.val := by omega
  rw [decodeFrom_lead (by omega) hlead, decodeFrom_inner ?_ (by simp),
    decodeFrom_last (by simp only [hb3]; omega) (by simp)]
  · simp only [hb2, hb3, hvalue, ofNat_val]
  · -- The bounds on the second byte leave out overlong forms and surrogates.
    simp only [hb2]
    split <;> split <;> omega

theorem decodeFrom_four {c : CodePoint} (h : ¬ c.val < 0x10000) (position : Nat) (r : Bytes) :
    decodeFrom surrogates position none (UInt8.ofNat (0xF0 + c.val / 0x40000) ::
        UInt8.ofNat (0x80 + c.val / 0x1000 % 0x40) :: UInt8.ofNat (0x80 + c.val / 0x40 % 0x40) ::
        UInt8.ofNat (0x80 + c.val % 0x40) :: r)
      = (decodeFrom surrogates (position + 1 + 1 + 1 + 1) none r).map (c :: ·) := by
  have hlt := c.isLt
  have hb1 := toNat_ofNat_of_lt (n := 0xF0 + c.val / 0x40000) (by omega)
  have hb2 := toNat_ofNat_of_lt (n := 0x80 + c.val / 0x1000 % 0x40) (by omega)
  have hb3 := toNat_ofNat_of_lt (n := 0x80 + c.val / 0x40 % 0x40) (by omega)
  have hb4 := toNat_ofNat_of_lt (n := 0x80 + c.val % 0x40) (by omega)
  have hlead : Partial.ofLead? surrogates (UInt8.ofNat (0xF0 + c.val / 0x40000))
      = some ⟨UInt8.ofNat (0xF0 + c.val / 0x40000), 1, 3, c.val / 0x40000,
          if 0xF0 + c.val / 0x40000 = 0xF0 then 0x90 else 0x80,
          if 0xF0 + c.val / 0x40000 = 0xF4 then 0x8F else 0xBF⟩ := by
    rw [Partial.ofLead?, hb1]
    simp only
    rw [if_neg (by omega), if_neg (by omega), if_neg (by omega), if_pos (by omega)]
    simp only [Option.some.injEq, Partial.mk.injEq, true_and, and_true]
    omega
  have hvalue : ((c.val / 0x40000 * 0x40 + (0x80 + c.val / 0x1000 % 0x40) % 0x40) * 0x40
      + (0x80 + c.val / 0x40 % 0x40) % 0x40) * 0x40 + (0x80 + c.val % 0x40) % 0x40 = c.val := by
    omega
  rw [decodeFrom_lead (by omega) hlead, decodeFrom_inner ?_ (by simp),
    decodeFrom_inner (by simp only [hb3]; omega) (by simp),
    decodeFrom_last (by simp only [hb4]; omega) (by simp)]
  · simp only [hb2, hb3, hb4, hvalue, ofNat_val]
  · -- They leave out what is past the last code point, too.
    simp only [hb2]
    split <;> split <;> omega

/-- The bytes of a code point that is no surrogate are read as that code point. -/
theorem decodeFrom_bytesOf {c : CodePoint} (hc : c.isSurrogate = false) (position : Nat)
    (r : Bytes) :
    ∃ next, decodeFrom surrogates position none (bytesOf c ++ r)
      = (decodeFrom surrogates next none r).map (c :: ·) := by
  rw [bytesOf]
  by_cases h1 : c.val < 0x80
  · have hb := toNat_ofNat_of_lt (n := c.val) (by omega)
    refine ⟨position + 1, ?_⟩
    simp only [if_pos h1, List.cons_append, List.nil_append]
    rw [decodeFrom_ascii (by omega), hb, ofNat_val]
  by_cases h2 : c.val < 0x800
  · simp only [if_neg h1, if_pos h2]
    exact ⟨_, decodeFrom_two h1 h2 position r⟩
  by_cases h3 : c.val < 0x10000
  · have hsur : c.val < 0xD800 ∨ 0xDFFF < c.val := by
      rw [CodePoint.isSurrogate, Bool.and_eq_false_iff] at hc
      simp only [decide_eq_false_iff_not] at hc
      omega
    simp only [if_neg h1, if_neg h2, if_pos h3]
    exact ⟨_, decodeFrom_three hsur h2 h3 position r⟩
  · simp only [if_neg h1, if_neg h2, if_neg h3]
    exact ⟨_, decodeFrom_four h3 position r⟩

theorem decodeFrom_flatMap {t : Text} (h : t.Plain) (position : Nat) :
    decodeFrom surrogates position none (t.flatMap bytesOf) = .ok t := by
  induction t generalizing position with
  | nil => rfl
  | cons c r ih =>
    obtain ⟨next, hnext⟩ :=
      decodeFrom_bytesOf (h c List.mem_cons_self) position (r.flatMap bytesOf)
    rw [List.flatMap_cons, hnext, ih (fun x hx => h x (List.mem_cons_of_mem _ hx))]
    rfl

/-- The bytes of a text are read as that text, by a reader of any kind. -/
theorem decodeWith_encode (surrogates : Surrogates) {t : Text} {bytes : Bytes}
    (h : encode t = .ok bytes) : decodeWith surrogates bytes = .ok t := by
  obtain ⟨hsur, rfl⟩ := encode_ok.mp h
  exact decodeFrom_flatMap hsur 0

theorem decode_encode {t : Text} {bytes : Bytes} (h : encode t = .ok bytes) :
    decode bytes = .ok t :=
  decodeWith_encode .refused h

end Utf8

end LiteralSplice
