/-
Declarations of string literals.

* **`Constant.unescape?_body`**: the body of a constant stands for its bytes;
* **`Constant.printable_body`**, **`Pool.printable_declaration`**: constants and the lines that
  declare them are printable ASCII, whatever the bytes;
* **`Pool.symbol_injective`**: strings at different indices have different symbols;
* **`Pool.declares_iff`**: the one line that declares a symbol;
* **`Pool.nodup_declarations`**: no two lines of a pool are the same.

Design notes: a declaration starts with its symbol and a blank, and no symbol holds a blank.  So
the symbol can be read off the line, and symbols that begin with one another are told apart.
-/
import LiteralSplice.Pool.Basic
import LiteralSplice.Proofs.Encodings
import LiteralSplice.Proofs.Texts
import Mathlib.Data.List.Nodup

namespace LiteralSplice

namespace Constant

/-! ### The body of a constant -/

theorem hexUpperValue?_hexDigit {d : Nat} (h : d < 16) :
    (Text.hexDigit true d).hexUpperValue? = some d := by
  have hall : ∀ d < 16, (Text.hexDigit true d).hexUpperValue? = some d := by decide
  exact hall d h

theorem unescape?_cons {c : CodePoint} {r : Text} (hslash : c ≠ CodePoint.ofChar '\\')
    (hascii : c.val < 0x80) :
    unescape? (c :: r) = (unescape? r).map (UInt8.ofNat c.val :: ·) := by
  rcases r with _ | ⟨x, _ | ⟨y, r⟩⟩ <;> rw [unescape?.eq_def] <;>
    simp only [if_neg hslash, if_pos hascii]

/-- What a byte is written as is read as that byte. -/
theorem unescape?_escape (b : UInt8) (r : Text) :
    unescape? (escape b ++ r) = (unescape? r).map (b :: ·) := by
  have hb : b.toNat < 256 := b.toNat_lt
  have hvalue : UInt8.ofNat b.toNat = b := UInt8.ofNat_toNat
  rcases hplain : isPlain b with _ | _
  · -- Two digits after a backslash are read as a byte, whatever comes after them.
    have hdigits : escape b = [CodePoint.ofChar '\\', Text.hexDigit true (b.toNat / 16),
        Text.hexDigit true (b.toNat % 16)] := by
      rw [escape, hplain, Text.hexUpper, Text.hexDigits, Text.hexDigits, Text.hexDigits,
        Nat.mod_eq_of_lt (show b.toNat / 16 < 16 by omega)]
      rfl
    have hbyte : 16 * (b.toNat / 16) + b.toNat % 16 = b.toNat := by omega
    rw [hdigits]
    simp only [List.cons_append, List.nil_append, unescape?, if_true]
    rw [hexUpperValue?_hexDigit (by omega), hexUpperValue?_hexDigit (by omega)]
    rcases unescape? r with _ | bytes
    · rfl
    · simp only [Option.bind_eq_bind, Option.bind_some, Option.pure_def, Option.map_some, hbyte,
        hvalue]
  · have hval : (CodePoint.ofNat b.toNat).val = b.toNat := Nat.mod_eq_of_lt (by omega)
    have hrange := hplain
    rw [isPlain] at hrange
    simp only [Bool.and_eq_true, decide_eq_true_eq, bne_iff_ne] at hrange
    obtain ⟨⟨⟨-, hle⟩, -⟩, hne⟩ := hrange
    have hslash : CodePoint.ofNat b.toNat ≠ CodePoint.ofChar '\\' := by
      intro he
      have hnum := congrArg Fin.val he
      rw [hval] at hnum
      exact hne (UInt8.toNat_inj.mp hnum)
    rw [escape, hplain, if_pos rfl, List.cons_append, List.nil_append,
      unescape?_cons hslash (by omega), hval, hvalue]

theorem unescape?_body (bytes : Bytes) : unescape? (body bytes) = some bytes := by
  induction bytes with
  | nil => rfl
  | cons b r ih =>
    rw [body, List.flatMap_cons, unescape?_escape, ← body, ih]
    rfl

theorem printable_hexDigit {d : Nat} (h : d < 16) :
    (Text.hexDigit true d).isPrintableAscii = true := by
  have hall : ∀ d < 16, (Text.hexDigit true d).isPrintableAscii = true := by decide
  exact hall d h

theorem printable_escape (b : UInt8) : ∀ c ∈ escape b, c.isPrintableAscii = true := by
  have hb : b.toNat < 256 := b.toNat_lt
  intro c hc
  rcases hplain : isPlain b with _ | _
  · rw [escape, hplain, Text.hexUpper, Text.hexDigits, Text.hexDigits, Text.hexDigits] at hc
    rcases List.mem_append.mp hc with hc | hc
    · rw [List.mem_singleton.mp hc]
      rfl
    · simp only [List.nil_append, List.cons_append, List.mem_cons, List.not_mem_nil,
        or_false] at hc
      rcases hc with rfl | rfl
      · exact printable_hexDigit (Nat.mod_lt _ (by omega))
      · exact printable_hexDigit (Nat.mod_lt _ (by omega))
  · -- A byte that stands for itself is printable by its own bounds.
    have hval : (CodePoint.ofNat b.toNat).val = b.toNat := Nat.mod_eq_of_lt (by omega)
    have hrange := hplain
    rw [isPlain] at hrange
    simp only [Bool.and_eq_true, decide_eq_true_eq] at hrange
    rw [escape, hplain, if_pos rfl, List.mem_singleton] at hc
    rw [hc, CodePoint.isPrintableAscii, hval]
    simp only [Bool.and_eq_true, decide_eq_true_eq]
    exact hrange.1.1

/-- The body of a constant is printable, whatever its bytes. -/
theorem printable_body (bytes : Bytes) : ∀ c ∈ body bytes, c.isPrintableAscii = true := by
  intro c hc
  obtain ⟨b, -, hb⟩ := List.mem_flatMap.mp hc
  exact printable_escape b c hb

end Constant

namespace Pool

/-! ### Symbols -/

theorem length_symbol_zero_lt (n : Nat) : (symbol 0).length < (symbol (n + 1)).length := by
  have hpos := List.length_pos_of_ne_nil (Text.ofNat_ne_nil (n + 1))
  have hzero : (symbol 0).length = 5 := rfl
  have hstart : ("@.str." : Text).length = 6 := rfl
  rw [hzero, symbol, List.length_append, hstart]
  omega

theorem symbol_injective : Function.Injective symbol := by
  intro m n h
  rcases m with _ | m <;> rcases n with _ | n
  · rfl
  · exact absurd (congrArg List.length h) (Nat.ne_of_lt (length_symbol_zero_lt n))
  · exact absurd (congrArg List.length h) (Nat.ne_of_gt (length_symbol_zero_lt m))
  · rw [symbol, symbol, List.append_right_inj] at h
    exact Text.ofNat_injective h

theorem blank_not_mem_symbol (n : Nat) : CodePoint.ofChar ' ' ∉ symbol n := by
  rcases n with _ | n
  · decide
  · intro h
    rw [symbol, List.mem_append] at h
    rcases h with h | h
    · exact absurd h (by decide)
    · exact absurd (Text.isDigit_of_mem_ofNat h) (by decide)

/-! ### Declarations -/

/-- A line declares a symbol if it begins with the symbol and an equals sign between blanks. -/
def Declares (line s : Text) : Prop := s ++ Text.ofString " = " <+: line

/-- The symbol that a line begins with. -/
def symbolOf (line : Text) : Text := line.takeWhile (· ≠ CodePoint.ofChar ' ')

theorem symbolOf_append (n : Nat) (r : Text) :
    symbolOf (symbol n ++ CodePoint.ofChar ' ' :: r) = symbol n := by
  have hall : ∀ c ∈ symbol n, decide (c ≠ CodePoint.ofChar ' ') = true := by
    intro c hc
    rw [decide_eq_true_eq]
    rintro rfl
    exact blank_not_mem_symbol n hc
  rw [symbolOf, List.takeWhile_append_of_pos hall, List.takeWhile_cons_of_neg (by simp),
    List.append_nil]

theorem symbolOf_declaration (n : Nat) (t : Text) : symbolOf (declaration n t) = symbol n := by
  rw [declaration]
  simp only [List.append_assoc]
  exact symbolOf_append n _

/-- A declaration declares the symbol of its index and no other. -/
theorem declares_iff {m n : Nat} {t : Text} : Declares (declaration m t) (symbol n) ↔ m = n := by
  constructor
  · -- Both symbols are what the line begins with up to its first blank.
    rintro ⟨r, hr⟩
    have hsymbol := symbolOf_declaration m t
    rw [← hr, List.append_assoc] at hsymbol
    exact symbol_injective ((symbolOf_append n _).symm.trans hsymbol).symm
  · rintro rfl
    rw [declaration]
    simp only [Declares, List.append_assoc]
    exact (List.prefix_append_right_inj _).mpr ⟨_, rfl⟩

theorem printable_ofNat (n : Nat) : ∀ c ∈ Text.ofNat n, c.isPrintableAscii = true := by
  intro c hc
  have hdigit := Text.isDigit_of_mem_ofNat hc
  rw [CodePoint.isDigit] at hdigit
  rw [CodePoint.isPrintableAscii]
  simp only [Bool.and_eq_true, decide_eq_true_eq] at hdigit ⊢
  omega

theorem printable_symbol (n : Nat) : ∀ c ∈ symbol n, c.isPrintableAscii = true := by
  rcases n with _ | n
  · exact List.all_eq_true.mp (by decide)
  · rw [symbol, List.forall_mem_append]
    exact ⟨List.all_eq_true.mp (by decide), printable_ofNat (n + 1)⟩

/-- A declaration is printable, whatever the string that it declares. -/
theorem printable_declaration (n : Nat) (t : Text) :
    ∀ c ∈ declaration n t, c.isPrintableAscii = true := by
  have hassigned : ∀ c ∈ (" = private unnamed_addr constant [" : Text),
      c.isPrintableAscii = true := List.all_eq_true.mp (by decide)
  have hopened : ∀ c ∈ (" x i8] c\"" : Text), c.isPrintableAscii = true :=
    List.all_eq_true.mp (by decide)
  have hclosed : ∀ c ∈ ("\", align 1" : Text), c.isPrintableAscii = true :=
    List.all_eq_true.mp (by decide)
  rw [declaration]
  simp only [List.forall_mem_append]
  exact ⟨⟨⟨⟨⟨printable_symbol n, hassigned⟩, printable_ofNat _⟩, hopened⟩,
    Constant.printable_body _⟩, hclosed⟩

theorem getElem?_declarations (p : Pool) (n : Nat) :
    p.declarations[n]? = (p.strings[n]?).map (declaration n) := by
  rw [declarations, List.getElem?_map, List.getElem?_zipIdx]
  rcases p.strings[n]? with _ | t
  · rfl
  · simp

/-- No two lines of a pool are the same, whatever its strings. -/
theorem nodup_declarations (p : Pool) : p.declarations.Nodup := by
  have hsymbols : p.declarations.map symbolOf = (List.range p.size).map symbol := by
    refine List.ext_getElem? fun n => ?_
    rw [List.getElem?_map, getElem?_declarations, List.getElem?_map]
    by_cases hn : n < p.strings.length
    · rw [size, List.getElem?_range hn, List.getElem?_eq_getElem hn]
      simp only [Option.map_some, symbolOf_declaration]
    · rw [List.getElem?_eq_none (Nat.not_lt.mp hn),
        List.getElem?_eq_none (by simpa [size] using Nat.not_lt.mp hn)]
      rfl
  refine List.Nodup.of_map symbolOf ?_
  rw [hsymbols]
  exact List.nodup_range.map symbol_injective

end Pool

end LiteralSplice
