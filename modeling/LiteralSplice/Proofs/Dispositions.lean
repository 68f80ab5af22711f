/-
The header field that names a download can be taken apart again.

* **`Disposition.Spells`**: a text spells bytes in percent escapes;
* **`Disposition.spells_percentEncode`**, **`Disposition.Spells.decode`**: bytes are spelled by
  their encoding, and what is spelled is what is decoded;
* **`Disposition.read?`**: a reader of the field, which takes the name in quotes up to the first
  double quote and decodes the name after it;
* **`Disposition.Names`**: what a field with two forms of a name has to be;
* **`Disposition.header_exact`**: the field for a name is printable, is read as the two forms of
  that name, and is the field of no other name.

Design notes: what could end a form too early is ruled out form by form.  No double quote stands in
the quoted form, so the first one after it is its end; and the other form, which is last, holds no
character but those that percent escapes are made of.
-/
import LiteralSplice.Proofs.Constants
import LiteralSplice.Service.Disposition

namespace LiteralSplice

theorem CodePoint.isPrintableAscii_iff {c : CodePoint} :
    c.isPrintableAscii = true ↔ 0x20 ≤ c.val ∧ c.val ≤ 0x7E := by
  rw [isPrintableAscii, Bool.and_eq_true, decide_eq_true_iff, decide_eq_true_iff]

namespace Disposition

/-! ### Percent escapes -/

/-- A character that stands for itself among percent escapes: a letter, a digit, or one of four
marks. -/
def StandsForItself (c : CodePoint) : Prop :=
  0x41 ≤ c.val ∧ c.val ≤ 0x5A ∨ 0x61 ≤ c.val ∧ c.val ≤ 0x7A ∨ 0x30 ≤ c.val ∧ c.val ≤ 0x39 ∨
    c ∈ ("_.-~" : Text)

/-- A text spells bytes: a character that stands for itself spells one, and so does a percent sign
with two capital hexadecimal digits. -/
inductive Spells : Text → Bytes → Prop
  | nil : Spells [] []
  | mark {c byte r bytes} (hc : StandsForItself c) (hbyte : byte.toNat = c.val)
      (hr : Spells r bytes) : Spells (c :: r) (byte :: bytes)
  | escape {a b byte r bytes} (hdigits : Constant.Digits a b byte) (hr : Spells r bytes) :
      Spells (CodePoint.ofChar '%' :: a :: b :: r) (byte :: bytes)

theorem StandsForItself.printable {c : CodePoint} (h : StandsForItself c) :
    c.isPrintableAscii = true := by
  rcases h with h | h | h | h
  · exact CodePoint.isPrintableAscii_iff.mpr (by omega)
  · exact CodePoint.isPrintableAscii_iff.mpr (by omega)
  · exact CodePoint.isPrintableAscii_iff.mpr (by omega)
  · have hall : ("_.-~" : Text).all CodePoint.isPrintableAscii = true := by decide
    exact List.all_eq_true.mp hall c h

theorem StandsForItself.ne_percent {c : CodePoint} (h : StandsForItself c) :
    c ≠ CodePoint.ofChar '%' := by
  rintro rfl
  exact absurd h (by unfold StandsForItself; decide)

theorem printable_of_hexUpperValue? {c : CodePoint} {n : Nat} (h : c.hexUpperValue? = some n) :
    c.isPrintableAscii = true := by
  rw [CodePoint.hexUpperValue?] at h
  rw [CodePoint.isPrintableAscii_iff]
  split at h
  · omega
  · split at h
    · omega
    · cases h

variable {t : Text} {bytes : Bytes}

theorem Spells.printable (h : Spells t bytes) : ∀ c ∈ t, c.isPrintableAscii = true := by
  induction h with
  | nil => exact nofun
  | mark hc _ _ ih => exact List.forall_mem_cons.mpr ⟨hc.printable, ih⟩
  | escape hdigits _ ih =>
    obtain ⟨high, low, ha, hb, -⟩ := hdigits
    exact List.forall_mem_cons.mpr ⟨rfl, List.forall_mem_cons.mpr ⟨printable_of_hexUpperValue? ha,
      List.forall_mem_cons.mpr ⟨printable_of_hexUpperValue? hb, ih⟩⟩⟩

/-- The bytes that are spelled are those that are decoded. -/
theorem Spells.decode (h : Spells t bytes) : percentDecode? t = some bytes := by
  induction h with
  | nil => rfl
  | @mark c byte r bytes hc hbyte _ ih =>
    have hle := (CodePoint.isPrintableAscii_iff.mp hc.printable).2
    have hascii : c.val < 0x80 := by omega
    have hvalue : UInt8.ofNat c.val = byte := by rw [← hbyte, UInt8.ofNat_toNat]
    rw [percentDecode?.eq_def]
    simp only [if_neg hc.ne_percent, if_pos hascii, ih, Option.map_some, hvalue]
  | escape hdigits _ ih =>
    obtain ⟨high, low, ha, hb, hbyte⟩ := hdigits
    rw [percentDecode?, if_pos rfl]
    simp only [ha, hb, ih, Option.bind_eq_bind, Option.bind_some, Option.pure_def, ← hbyte,
      UInt8.ofNat_toNat]

/-- A byte that is not escaped is a character that stands for itself. -/
theorem standsForItself_of_isUnreserved {byte : UInt8} (h : isUnreserved byte = true) :
    StandsForItself (CodePoint.ofNat byte.toNat) := by
  have hbyte : byte.toNat < 256 := byte.toNat_lt
  have hval : (CodePoint.ofNat byte.toNat).val = byte.toNat := Nat.mod_eq_of_lt (by omega)
  have hmark : ∀ n, byte.toNat = n → CodePoint.ofNat n ∈ ("_.-~" : Text) →
      StandsForItself (CodePoint.ofNat byte.toNat) := by
    rintro n rfl hn
    exact .inr (.inr (.inr hn))
  rw [isUnreserved] at h
  simp only [Bool.or_eq_true, Bool.and_eq_true, decide_eq_true_eq, beq_iff_eq] at h
  rcases h with (((((h | h) | h) | h) | h) | h) | h
  · exact .inr (.inr (.inl (by rwa [hval])))
  · exact .inl (by rwa [hval])
  · exact .inr (.inl (by rwa [hval]))
  · exact hmark _ h (by decide)
  · exact hmark _ h (by decide)
  · exact hmark _ h (by decide)
  · exact hmark _ h (by decide)

/-- Bytes are spelled by their encoding. -/
theorem spells_percentEncode (bytes : Bytes) : Spells (percentEncode bytes) bytes := by
  induction bytes with
  | nil => exact .nil
  | cons byte rest ih =>
    have hbyte : byte.toNat < 256 := byte.toNat_lt
    rw [percentEncode, List.flatMap_cons, ← percentEncode, percentEscape]
    rcases hplain : isUnreserved byte with _ | _
    · obtain ⟨a, b, hab, hdigits⟩ := Constant.exists_digits byte
      rw [if_neg Bool.false_ne_true, hab]
      exact .escape hdigits ih
    · rw [if_pos rfl]
      exact .mark (standsForItself_of_isUnreserved hplain) (Nat.mod_eq_of_lt (by omega)).symm ih

/-! ### The quoted form -/

/-- A character that may stand in the quoted form of a name: printable ASCII, but neither a double
quote nor a backslash. -/
def Allowed (c : CodePoint) : Prop :=
  0x20 ≤ c.val ∧ c.val ≤ 0x7E ∧ c ≠ CodePoint.ofChar '"' ∧ c ≠ CodePoint.ofChar '\\'

variable {c : CodePoint} {name header : Text}

theorem isSafe_iff : isSafe c = true ↔ Allowed c := by
  rw [isSafe, Allowed, Bool.and_eq_true, Bool.and_eq_true, CodePoint.isPrintableAscii_iff,
    bne_iff_ne, bne_iff_ne, and_assoc, and_assoc]

/-- An underscore is allowed, and so is all that stands for itself in the quoted form. -/
theorem allowed_of_mem_fallback (h : c ∈ fallback name) : Allowed c := by
  obtain ⟨d, -, rfl⟩ := List.mem_map.mp h
  split
  · exact isSafe_iff.mp ‹_›
  · unfold Allowed
    decide

/-! ### The field -/

/-- What comes after a text at the start of another. -/
def after? (lead t : Text) : Option Text :=
  if lead.isPrefixOf t then some (t.drop lead.length) else none

theorem after?_append (lead rest : Text) : after? lead (lead ++ rest) = some rest := by
  rw [after?, if_pos (List.isPrefixOf_iff_prefix.mpr (List.prefix_append _ _)), List.drop_left]

/-- A reader of the field: the name in quotes goes up to the first double quote, and the name after
it is decoded. -/
def read? (header : Text) : Option (Text × Text) := do
  let rest ← after? "attachment; filename=\"" header
  let quoted := rest.takeWhile (· != CodePoint.ofChar '"')
  let code ← after? "\"; filename*=UTF-8''" (rest.drop quoted.length)
  let bytes ← percentDecode? code
  let name ← (Utf8.decode bytes).toOption
  return (quoted, name)

theorem header_eq_ok : Disposition.header name = .ok header ↔
    ∃ bytes, Utf8.encode name = .ok bytes ∧ header = "attachment; filename=\"" ++ fallback name
      ++ "\"; filename*=UTF-8''" ++ percentEncode bytes := by
  rw [Disposition.header]
  rcases Utf8.encode name with run | bytes
  · exact ⟨nofun, fun ⟨_, h, _⟩ => nomatch h⟩
  · simp only [bind, Except.bind, pure, Except.pure, Except.ok.injEq, exists_eq_left', eq_comm]

/-- A field is read as the two forms of its name. -/
theorem read?_header (h : Disposition.header name = .ok header) :
    read? header = some (fallback name, name) := by
  obtain ⟨bytes, hbytes, rfl⟩ := header_eq_ok.mp h
  have hquoted : (fallback name ++ ("\"; filename*=UTF-8''" ++ percentEncode bytes)).takeWhile
      (· != CodePoint.ofChar '"') = fallback name := by
    -- All of the quoted form is taken, and then comes a double quote.
    have hall : ∀ c ∈ fallback name, (c != CodePoint.ofChar '"') = true :=
      fun c hc => bne_iff_ne.mpr (allowed_of_mem_fallback hc).2.2.1
    rw [List.takeWhile_append_of_pos hall]
    exact List.append_nil _
  rw [read?, List.append_assoc, List.append_assoc, after?_append]
  simp only [Option.bind_eq_bind, Option.bind_some, hquoted, List.drop_left, after?_append,
    (spells_percentEncode bytes).decode, Utf8.decode_encode hbytes, Except.toOption,
    Option.pure_def]

/-- What a field with two forms of a name has to be. -/
structure Names (header quoted code name : Text) : Prop where
  form : header = "attachment; filename=\"" ++ quoted ++ "\"; filename*=UTF-8''" ++ code
  printable : ∀ c ∈ header, 0x20 ≤ c.val ∧ c.val ≤ 0x7E
  quote_not_mem : CodePoint.ofChar '"' ∉ quoted
  backslash_not_mem : CodePoint.ofChar '\\' ∉ quoted
  length : quoted.length = name.length
  kept : ∀ (i : Nat) c, name[i]? = some c → Allowed c → quoted[i]? = some c
  replaced : ∀ (i : Nat) c, name[i]? = some c → ¬ Allowed c →
    quoted[i]? = some (CodePoint.ofChar '_')
  spelled : ∃ bytes, Utf8.encode name = .ok bytes ∧ Spells code bytes ∧
    percentDecode? code = some bytes

theorem names_of_header (h : Disposition.header name = .ok header) :
    ∃ code, Names header (fallback name) code name := by
  obtain ⟨bytes, hbytes, hform⟩ := header_eq_ok.mp h
  have hspells := spells_percentEncode bytes
  have hget : ∀ (i : Nat) c, name[i]? = some c →
      (fallback name)[i]? = some (if isSafe c then c else CodePoint.ofChar '_') := by
    intro i c hc
    rw [fallback, List.getElem?_map, hc]
    rfl
  refine ⟨percentEncode bytes, hform, ?_, ?_, ?_, List.length_map _, ?_, ?_,
    bytes, hbytes, hspells, hspells.decode⟩
  · intro c hc
    rw [hform, List.mem_append, List.mem_append, List.mem_append] at hc
    rcases hc with ((hc | hc) | hc) | hc
    · have hall : ("attachment; filename=\"" : Text).all CodePoint.isPrintableAscii = true := by
        decide
      exact CodePoint.isPrintableAscii_iff.mp (List.all_eq_true.mp hall c hc)
    · have hallowed := allowed_of_mem_fallback hc
      exact ⟨hallowed.1, hallowed.2.1⟩
    · have hall : ("\"; filename*=UTF-8''" : Text).all CodePoint.isPrintableAscii = true := by
        decide
      exact CodePoint.isPrintableAscii_iff.mp (List.all_eq_true.mp hall c hc)
    · exact CodePoint.isPrintableAscii_iff.mp (hspells.printable c hc)
  · exact fun hmem => (allowed_of_mem_fallback hmem).2.2.1 rfl
  · exact fun hmem => (allowed_of_mem_fallback hmem).2.2.2 rfl
  · intro i c hc hallowed
    rw [hget i c hc, if_pos (isSafe_iff.mpr hallowed)]
  · intro i c hc hnot
    rw [hget i c hc, if_neg (mt isSafe_iff.mp hnot)]

/-- **The field for a name is printable and exact.**  A name without surrogates has a field.  The
field is made of printable ASCII, so it is one line, and it holds the name in quotes,
without what would end the quotes, and the name in percent escapes.  A reader takes both forms from
it, and no other name has the same field. -/
theorem header_exact (h : name.Plain) :
    ∃ header quoted code, Disposition.header name = .ok header ∧
      Names header quoted code name ∧ read? header = some (quoted, name) ∧
      ∀ other, Disposition.header other = .ok header → other = name := by
  obtain ⟨header, hheader⟩ : ∃ header, Disposition.header name = .ok header :=
    ⟨_, header_eq_ok.mpr ⟨_, Utf8.encode_ok.mpr ⟨h, rfl⟩, rfl⟩⟩
  obtain ⟨code, hnames⟩ := names_of_header hheader
  refine ⟨header, _, code, hheader, hnames, read?_header hheader, fun other hother => ?_⟩
  have hsame := (read?_header hother).symm.trans (read?_header hheader)
  exact (Prod.mk.inj (Option.some.inj hsame)).2

/-- A name that would end its quotes, start another line and another parameter, and cannot be
written in ASCII. -/
def hostileName : Text := "a\"\\;\r\n%41é\x7f"

theorem header_exact_hostile :
    hostileName.Plain ∧
    Disposition.header hostileName = .ok ("attachment; filename=\"a__;__%41__\"; filename*=UTF-8''"
      ++ "a%22%5C%3B%0D%0A%2541%C3%A9%7F") ∧
    ∃ header quoted code, Disposition.header hostileName = .ok header ∧
      Names header quoted code hostileName ∧ read? header = some (quoted, hostileName) ∧
      ∀ other, Disposition.header other = .ok header → other = hostileName := by
  have hplain : hostileName.Plain := Text.plain_of_all (by decide +kernel)
  exact ⟨hplain, by decide +kernel, header_exact hplain⟩

end Disposition

end LiteralSplice
