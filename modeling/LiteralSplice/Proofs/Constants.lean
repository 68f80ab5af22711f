/-
The encoding of string constants can be taken back, and its size is exact.

* **`Constant.body_backslash`**: each backslash of a body begins one byte in two digits, and what
  stands before it and after them are bodies of their own;
* **`Constant.quote_not_mem_body`**: no double quote stands in a body;
* **`Constant.encode_reversible`**: the constant of a text is printable, stands for the UTF-8
  bytes of the text and a zero byte, counts them, and is the constant of no other text.

Design notes: a backslash could be misread in two ways, as the digit of an escape before it and
with digits that belong to what follows.  Both are ruled out by one statement: a body that is
split at a backslash splits the bytes that it stands for.
-/
import LiteralSplice.Proofs.Literals

namespace LiteralSplice

namespace Constant

/-- Two capital hexadecimal digits write a byte. -/
def Digits (a b : CodePoint) (byte : UInt8) : Prop :=
  ∃ high low, a.hexUpperValue? = some high ∧ b.hexUpperValue? = some low ∧
    byte.toNat = 16 * high + low

theorem ne_of_hexUpperValue? {c d : CodePoint} {n : Nat} (h : c.hexUpperValue? = some n)
    (hd : d.hexUpperValue? = none) : c ≠ d := by
  rintro rfl
  rw [hd] at h
  cases h

/-- The two capital hexadecimal digits of a byte write it. -/
theorem exists_digits (byte : UInt8) :
    ∃ a b, Text.hexUpper 2 byte.toNat = [a, b] ∧ Digits a b byte := by
  have hbyte : byte.toNat < 256 := byte.toNat_lt
  refine ⟨Text.hexDigit true (byte.toNat / 16), Text.hexDigit true (byte.toNat % 16), ?_,
    byte.toNat / 16, byte.toNat % 16, hexUpperValue?_hexDigit (by omega),
    hexUpperValue?_hexDigit (by omega), by omega⟩
  rw [Text.hexUpper, Text.hexDigits, Text.hexDigits, Text.hexDigits,
    Nat.mod_eq_of_lt (show byte.toNat / 16 < 16 by omega)]
  rfl

/-- A byte is written as one character that is no backslash and no quote, or in two digits. -/
theorem escape_cases (x : UInt8) :
    (∃ c, escape x = [c] ∧ c ≠ CodePoint.ofChar '\\' ∧ c ≠ CodePoint.ofChar '"') ∨
      ∃ a b, escape x = [CodePoint.ofChar '\\', a, b] ∧ Digits a b x := by
  have hx : x.toNat < 256 := x.toNat_lt
  rcases hplain : isPlain x with _ | _
  · obtain ⟨a, b, hab, hdigits⟩ := exists_digits x
    refine .inr ⟨a, b, ?_, hdigits⟩
    rw [escape, hplain, hab]
    rfl
  · have hval : (CodePoint.ofNat x.toNat).val = x.toNat := Nat.mod_eq_of_lt (by omega)
    rw [isPlain] at hplain
    simp only [Bool.and_eq_true, decide_eq_true_eq, bne_iff_ne] at hplain
    obtain ⟨⟨hrange, hquote⟩, hslash⟩ := hplain
    have hne : ∀ y : UInt8, x ≠ y → ∀ d : CodePoint, d.val = y.toNat →
        CodePoint.ofNat x.toNat ≠ d := by
      rintro y hy d hd rfl
      exact hy (UInt8.toNat_inj.mp (hval.symm.trans hd))
    refine .inl ⟨CodePoint.ofNat x.toNat, ?_, hne 0x5C hslash _ rfl, hne 0x22 hquote _ rfl⟩
    rw [escape, isPlain, if_pos (by simp [hrange, hquote, hslash])]

theorem quote_not_mem_body (bytes : Bytes) : CodePoint.ofChar '"' ∉ body bytes := by
  intro h
  obtain ⟨x, -, hx⟩ := List.mem_flatMap.mp h
  rcases escape_cases x with ⟨c, hc, -, hquote⟩ | ⟨a, b, hab, high, low, ha, hb, -⟩
  · rw [hc, List.mem_singleton] at hx
    exact hquote hx.symm
  · rw [hab] at hx
    simp only [List.mem_cons, List.not_mem_nil, or_false] at hx
    rcases hx with hx | hx | hx
    · exact absurd hx (by decide)
    · exact ne_of_hexUpperValue? ha rfl hx.symm
    · exact ne_of_hexUpperValue? hb rfl hx.symm

/-- A body that is split at a backslash splits the bytes that it stands for. -/
theorem body_backslash {bytes : Bytes} {before after : Text}
    (h : body bytes = before ++ CodePoint.ofChar '\\' :: after) :
    ∃ front byte back a b, bytes = front ++ byte :: back ∧ before = body front ∧
      Digits a b byte ∧ after = a :: b :: body back := by
  induction bytes generalizing before with
  | nil => exact absurd h.symm (List.append_ne_nil_of_right_ne_nil _ (List.cons_ne_nil _ _))
  | cons x r ih =>
    -- A backslash past the characters of the first byte is one of the bytes after it.
    have hlater : ∀ before', before = escape x ++ before' →
        body r = before' ++ CodePoint.ofChar '\\' :: after →
        ∃ front byte back a b, x :: r = front ++ byte :: back ∧ before = body front ∧
          Digits a b byte ∧ after = a :: b :: body back := by
      intro before' hbefore hr
      obtain ⟨front, byte, back, a, b, hsplit, hfront, hdigits, hafter⟩ := ih hr
      refine ⟨x :: front, byte, back, a, b, by rw [hsplit, List.cons_append], ?_, hdigits,
        hafter⟩
      rw [hbefore, hfront, body, body, List.flatMap_cons]
    rw [body, List.flatMap_cons, ← body] at h
    rcases escape_cases x with ⟨c, hc, hslash, -⟩ | ⟨a, b, hab, hdigits⟩
    · rw [hc, List.singleton_append] at h
      rcases before with _ | ⟨c', before⟩
      · exact absurd (List.cons.inj h).1 hslash
      · obtain ⟨rfl, hr⟩ := List.cons.inj h
        exact hlater before (by rw [hc, List.singleton_append]) hr
    · obtain ⟨high, low, ha, hb, -⟩ := id hdigits
      rw [hab] at h
      -- The two digits are no backslashes, so the split is before the escape or behind it.
      rcases before with _ | ⟨c', _ | ⟨a', _ | ⟨b', before⟩⟩⟩ <;>
        simp only [List.cons_append, List.nil_append, List.cons.injEq] at h
      · exact ⟨[], x, r, a, b, rfl, rfl, hdigits, h.2.symm⟩
      · exact absurd h.2.1 (ne_of_hexUpperValue? ha rfl)
      · exact absurd h.2.2.1 (ne_of_hexUpperValue? hb rfl)
      · obtain ⟨rfl, rfl, rfl, hr⟩ := h
        exact hlater before (by rw [hab]; rfl) hr

/-- What a body and a size have to be to stand for a text as the constant of its bytes. -/
structure Represents (body : Text) (size : Nat) (bytes : Bytes) : Prop where
  printable : ∀ c ∈ body, c.isPrintableAscii = true ∧ c ≠ CodePoint.ofChar '"'
  escaped : ∀ before after, body = before ++ CodePoint.ofChar '\\' :: after →
    ∃ a b rest byte front back, after = a :: b :: rest ∧ Digits a b byte ∧
      unescape? before = some front ∧ unescape? rest = some back ∧ bytes = front ++ byte :: back
  decoded : unescape? body = some bytes
  counted : size = bytes.length

theorem represents_body (bytes : Bytes) : Represents (body bytes) bytes.length bytes where
  printable c hc := ⟨printable_body bytes c hc, fun he => quote_not_mem_body bytes (he ▸ hc)⟩
  escaped before after h := by
    obtain ⟨front, byte, back, a, b, hsplit, hfront, hdigits, hafter⟩ := body_backslash h
    exact ⟨a, b, body back, byte, front, back, hafter, hdigits, by rw [hfront, unescape?_body],
      unescape?_body back, hsplit⟩
  decoded := unescape?_body bytes
  counted := rfl

/-- A text has a constant if it has bytes, and the constant is made from them. -/
theorem encode_eq_ok {v body : Text} {size : Nat} :
    encode v = .ok (body, size) ↔ ∃ bytes, Utf8.encode v = .ok bytes ∧
      body = Constant.body (bytes ++ [0]) ∧ size = (bytes ++ [0]).length := by
  rw [encode, Utf8.encode]
  rcases Utf8.surrogateRun? v with _ | run
  · simp only [Except.ok.injEq, Prod.mk.injEq, exists_eq_left', bytesOf, @eq_comm _ body,
      @eq_comm _ size]
  · constructor
    · rintro ⟨⟩
    · rintro ⟨bytes, ⟨⟩, -⟩

/-- Texts with one body are one text. -/
theorem encode_body_injective {v v' body : Text} {size size' : Nat}
    (h : encode v = .ok (body, size)) (h' : encode v' = .ok (body, size')) : v' = v := by
  obtain ⟨bytes, hbytes, rfl, -⟩ := encode_eq_ok.mp h
  obtain ⟨bytes', hbytes', hbody, -⟩ := encode_eq_ok.mp h'
  have hsame := congrArg unescape? hbody
  rw [unescape?_body, unescape?_body, Option.some.injEq, List.append_left_inj] at hsame
  subst hsame
  exact Except.ok.inj ((Utf8.decode_encode hbytes').symm.trans (Utf8.decode_encode hbytes))

/-- The constant of a text without surrogates stands for the bytes of the text and a zero byte,
counts them, and is the constant of no other text. -/
theorem encode_reversible {v : Text} (h : v.Plain) :
    ∃ body size bytes, encode v = .ok (body, size) ∧ Utf8.encode v = .ok bytes ∧
      Represents body size (bytes ++ [0]) ∧
      ∀ v' size', encode v' = .ok (body, size') → v' = v := by
  have hbytes : Utf8.encode v = .ok (v.flatMap Utf8.bytesOf) := Utf8.encode_ok.mpr ⟨h, rfl⟩
  have hencode := encode_eq_ok.mpr ⟨_, hbytes, rfl, rfl⟩
  exact ⟨_, _, _, hencode, hbytes, represents_body _,
    fun v' size' h' => encode_body_injective hencode h'⟩

/-- A zero byte before a digit, a quote, a backslash before digits, and a letter of two bytes. -/
theorem encode_reversible_mixed :
    Text.Plain ([CodePoint.ofNat 0] ++ "0\"\\41é") ∧
    encode ([CodePoint.ofNat 0] ++ "0\"\\41é") = .ok ("\\000\\22\\5C41\\C3\\A9\\00", 9) ∧
    ∃ body size bytes, encode ([CodePoint.ofNat 0] ++ "0\"\\41é") = .ok (body, size) ∧
      Utf8.encode ([CodePoint.ofNat 0] ++ "0\"\\41é") = .ok bytes ∧
      Represents body size (bytes ++ [0]) ∧
      ∀ v' size', encode v' = .ok (body, size') → v' = [CodePoint.ofNat 0] ++ "0\"\\41é" :=
  have hplain : Text.Plain ([CodePoint.ofNat 0] ++ "0\"\\41é") :=
    Text.plain_of_all (by decide +kernel)
  ⟨hplain, by decide +kernel, encode_reversible hplain⟩

end Constant

end LiteralSplice
