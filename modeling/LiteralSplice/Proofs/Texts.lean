/-
Texts in pieces, and numbers in decimal.

* **`Text.split_eq_splitOn`**: cutting at a separator is `List.splitOn`, with its lemmas;
* **`Text.split_join`**: pieces that do not hold the separator come back from their join;
* **`Text.join_split`**: joining the pieces of a text gives the text;
* **`Text.splitLast?_eq_some`**, **`Text.splitLast?_append_cons`**: a text is divided at the last
  separator in it;
* **`Text.mem_join`**, **`Text.mem_split`**: what is in a text is in one of its pieces;
* **`Text.ofDigits_ofNat`**, **`Text.ofNat_injective`**: a number can be told from its digits;
* **`Text.length_ofNat_of_readInteger`**: a count has no more digits than an integer above it that
  has been read.
-/
import LiteralSplice.Text.Integer
import Mathlib.Algebra.Group.Nat.Defs
import Mathlib.Data.List.Basic
import Mathlib.Data.List.Induction
import Mathlib.Tactic.SplitIfs

namespace LiteralSplice

namespace Text

/-! ### Pieces -/

theorem split_eq_splitOn (sep : CodePoint) (t : Text) : split sep t = t.splitOn sep := by
  induction t with
  | nil => rfl
  | cons c r ih =>
    rw [split, List.splitOn_cons_eq_if_modifyHead, ih]
    by_cases hc : c = sep
    · rw [if_pos hc, if_pos (by simpa using hc)]
    · rw [if_neg hc, if_neg (by simpa using hc)]
      -- The character goes to the first piece of the rest, and there always is one.
      rcases h : r.splitOn sep with _ | ⟨piece, pieces⟩
      · exact absurd h (List.splitOn_ne_nil sep r)
      · rfl

theorem split_append_cons (sep : CodePoint) (s t : Text) :
    split sep (s ++ sep :: t) = split sep s ++ split sep t := by
  simp only [split_eq_splitOn, List.splitOn_append_cons_self]

theorem split_of_not_mem {sep : CodePoint} {t : Text} (h : sep ∉ t) : split sep t = [t] := by
  rw [split_eq_splitOn, List.splitOn_eq_singleton h]

theorem split_join {sep : CodePoint} {pieces : List Text} (h : ∀ p ∈ pieces, sep ∉ p)
    (hne : pieces ≠ []) : split sep (join [sep] pieces) = pieces := by
  rw [split_eq_splitOn, join, List.splitOn_intercalate sep h hne]

theorem join_split (sep : CodePoint) (t : Text) : join [sep] (split sep t) = t := by
  rw [split_eq_splitOn, join, List.intercalate_splitOn]

theorem splitLast?_eq_none {sep : CodePoint} {t : Text} (h : splitLast? sep t = none) :
    sep ∉ t := by
  induction t with
  | nil => exact List.not_mem_nil
  | cons c r ih =>
    rw [splitLast?] at h
    rcases hr : splitLast? sep r with _ | ⟨b, a⟩
    · rw [hr] at h
      by_cases hc : c = sep
      · simp [hc] at h
      · exact List.not_mem_cons_of_ne_of_not_mem (Ne.symm hc) (ih hr)
    · rw [hr] at h
      cases h

/-- A text is divided at the last code point of its kind. -/
theorem splitLast?_eq_some {sep : CodePoint} {t before after : Text}
    (h : splitLast? sep t = some (before, after)) :
    t = before ++ sep :: after ∧ sep ∉ after := by
  induction t generalizing before with
  | nil => cases h
  | cons c r ih =>
    rw [splitLast?] at h
    rcases hr : splitLast? sep r with _ | ⟨b, a⟩
    · rw [hr] at h
      by_cases hc : c = sep
      · simp only [if_pos hc, Option.some.injEq, Prod.mk.injEq] at h
        obtain ⟨rfl, rfl⟩ := h
        rw [hc]
        exact ⟨rfl, splitLast?_eq_none hr⟩
      · simp [hc] at h
    · rw [hr] at h
      simp only [Option.some.injEq, Prod.mk.injEq] at h
      obtain ⟨rfl, rfl⟩ := h
      obtain ⟨hrest, hafter⟩ := ih hr
      rw [hrest]
      exact ⟨rfl, hafter⟩

theorem splitLast?_of_not_mem {sep : CodePoint} {t : Text} (h : sep ∉ t) :
    splitLast? sep t = none := by
  rcases hsplit : splitLast? sep t with _ | ⟨before, after⟩
  · rfl
  · rw [(splitLast?_eq_some hsplit).1] at h
    exact absurd (List.mem_append_right before List.mem_cons_self) h

theorem splitLast?_append_cons {sep : CodePoint} (before : Text) {after : Text}
    (h : sep ∉ after) : splitLast? sep (before ++ sep :: after) = some (before, after) := by
  induction before with
  | nil => rw [List.nil_append, splitLast?, splitLast?_of_not_mem h, if_pos rfl]
  | cons c r ih => rw [List.cons_append, splitLast?, ih]

theorem join_cons (sep piece : Text) (pieces : List Text) :
    join sep (piece :: pieces) = piece ++ if pieces = [] then [] else sep ++ join sep pieces := by
  rcases pieces with _ | ⟨next, pieces⟩
  · rw [if_pos rfl, List.append_nil, join, List.intercalate_singleton]
  · rw [if_neg (List.cons_ne_nil next pieces), join, List.intercalate_cons_cons, List.append_assoc,
      join]

/-- The last of the pieces stands at the end. -/
theorem join_concat (sep : Text) (pieces : List Text) (last : Text) :
    join sep (pieces ++ [last]) = pieces.flatMap (fun piece => piece ++ sep) ++ last := by
  induction pieces with
  | nil => rw [List.nil_append, join_cons, if_pos rfl, List.append_nil, List.flatMap_nil,
      List.nil_append]
  | cons piece rest ih =>
    rw [List.cons_append, join_cons, if_neg (List.concat_ne_nil _ _), ih, List.flatMap_cons,
      List.append_assoc, List.append_assoc]

/-- What is no separator comes to a join from one of its pieces. -/
theorem mem_join {c : CodePoint} {sep : Text} (hc : c ∉ sep) {pieces : List Text} :
    c ∈ join sep pieces ↔ ∃ piece ∈ pieces, c ∈ piece := by
  induction pieces with
  | nil => simp [join]
  | cons piece pieces ih =>
    have hrest : (c ∈ if pieces = [] then [] else sep ++ join sep pieces) ↔
        ∃ piece ∈ pieces, c ∈ piece := by
      split
      · rename_i hnil
        simp [hnil]
      · rw [List.mem_append, or_iff_right hc, ih]
    rw [join_cons, List.mem_append, hrest]
    simp only [List.mem_cons, exists_eq_or_imp]

theorem mem_split {c sep : CodePoint} (hc : c ≠ sep) {t : Text} :
    (∃ piece ∈ split sep t, c ∈ piece) ↔ c ∈ t := by
  conv_rhs => rw [← join_split sep t]
  exact (mem_join (by simpa using hc)).symm

/-! ### Numbers -/

theorem val_digit {n : Nat} (h : n < 10) : (CodePoint.digit n).val = 0x30 + n := by
  rw [CodePoint.digit, CodePoint.ofNat, Fin.ofNat]
  exact Nat.mod_eq_of_lt (by omega)

/-- The digits of a number spell it. -/
theorem ofDigits_ofNat (n : Nat) : ofDigits ((ofNat n).map fun c => c.val - 0x30) = n := by
  induction n using Nat.strongRecOn with
  | ind n ih =>
    rw [ofNat]
    by_cases h : n < 10
    · rw [if_pos h]
      simp [ofDigits, val_digit h]
    · rw [if_neg h]
      have hlast : n % 10 < 10 := Nat.mod_lt n (by omega)
      have hfront := ih (n / 10) (by omega)
      -- The last digit is read after the others have been read as `n / 10`.
      rw [ofDigits] at hfront
      rw [ofDigits, List.map_append, List.foldl_append, hfront]
      simp only [List.map_cons, List.map_nil, List.foldl_cons, List.foldl_nil, val_digit hlast]
      omega

theorem ofNat_injective : Function.Injective ofNat := by
  intro m n h
  rw [← ofDigits_ofNat m, h, ofDigits_ofNat]

/-- A greater number has no fewer digits. -/
theorem length_ofNat_mono {m n : Nat} (h : m ≤ n) : (ofNat m).length ≤ (ofNat n).length := by
  induction n using Nat.strongRecOn generalizing m with
  | ind n ih =>
    rw [ofNat.eq_def m, ofNat.eq_def n]
    by_cases hn : n < 10
    · rw [if_pos hn, if_pos (by omega)]
      exact Nat.le_refl 1
    · rw [if_neg hn, List.length_append, List.length_singleton]
      split
      · exact Nat.le_add_left 1 _
      · have htens := ih (n / 10) (by omega) (Nat.div_le_div_right (c := 10) h)
        rw [List.length_append, List.length_singleton]
        omega

theorem length_ofNat_le {n d : Nat} (hd : 0 < d) (h : n < 10 ^ d) : (ofNat n).length ≤ d := by
  induction d generalizing n with
  | zero => exact absurd hd (Nat.lt_irrefl 0)
  | succ d ih =>
    rw [ofNat]
    by_cases hn : n < 10
    · rw [if_pos hn, List.length_singleton]
      omega
    · rw [if_neg hn, List.length_append, List.length_singleton]
      have hpos : 0 < d := by
        rcases d with _ | d
        · exact absurd h hn
        · exact Nat.succ_pos d
      have htens : n / 10 < 10 ^ d := by
        rw [Nat.pow_succ] at h
        exact Nat.div_lt_of_lt_mul (by omega)
      have hfront := ih hpos htens
      omega

theorem ofDigits_lt {digits : List Nat} (h : ∀ d ∈ digits, d < 10) :
    ofDigits digits < 10 ^ digits.length := by
  induction digits using List.reverseRecOn with
  | nil => exact Nat.zero_lt_one
  | append_singleton front d ih =>
    have hfront := ih fun x hx => h x (List.mem_append_left _ hx)
    have hlast := h d (by simp)
    rw [ofDigits] at hfront
    rw [ofDigits, List.foldl_append, List.length_append, List.length_singleton, Nat.pow_succ]
    simp only [List.foldl_cons, List.foldl_nil]
    omega

theorem decimal?_lt {c : CodePoint} {d : Nat} (h : c.decimal? = some d) : d < 10 := by
  rw [CodePoint.decimal?, Option.map_eq_some_iff] at h
  obtain ⟨first, hfound, rfl⟩ := h
  have hrange := List.find?_some hfound
  simp only [Bool.and_eq_true, decide_eq_true_eq] at hrange
  omega

/-- An integer that has been read has no more digits than are read, and a count up to it has no
more. -/
theorem length_ofNat_of_readInteger {t : Text} {n : Int} (h : readInteger t = .ok n) {k : Nat}
    (hk : (k : Int) ≤ n) : (ofNat k).length ≤ digitLimit := by
  rw [readInteger] at h
  dsimp only at h
  -- Whatever the sign is, the count is not above what the digits spell.
  obtain ⟨digits, hspelt, hlimit, hle⟩ : ∃ digits : List Nat,
      (∀ d ∈ digits, ∃ c : CodePoint, c.decimal? = some d) ∧ digits.length ≤ digitLimit ∧
        k ≤ ofDigits digits := by
    split_ifs at h with hempty hdigits hrest hsign
    · rw [Except.ok.injEq] at h
      refine ⟨_, ?_, Nat.not_lt.mp hdigits, by omega⟩
      exact fun d hd => (List.mem_filterMap.mp hd).imp fun c hc => hc.2
    · rw [Except.ok.injEq] at h
      refine ⟨_, ?_, Nat.not_lt.mp hdigits, by omega⟩
      exact fun d hd => (List.mem_filterMap.mp hd).imp fun c hc => hc.2
  have hbound : ofDigits digits < 10 ^ digits.length := by
    refine ofDigits_lt ?_
    intro d hd
    obtain ⟨c, hc⟩ := hspelt d hd
    exact decimal?_lt hc
  have hpow : 10 ^ digits.length ≤ 10 ^ digitLimit := Nat.pow_le_pow_right (by omega) hlimit
  exact length_ofNat_le (by decide) (Nat.lt_of_le_of_lt hle (Nat.lt_of_lt_of_le hbound hpow))

theorem isDigit_of_mem_ofNat {n : Nat} {c : CodePoint} (h : c ∈ ofNat n) : c.isDigit = true := by
  induction n using Nat.strongRecOn with
  | ind n ih =>
    rw [ofNat] at h
    by_cases hn : n < 10
    · rw [if_pos hn, List.mem_singleton] at h
      rw [h, CodePoint.isDigit, val_digit hn]
      simp only [Bool.and_eq_true, decide_eq_true_eq]
      omega
    · rw [if_neg hn, List.mem_append, List.mem_singleton] at h
      rcases h with h | h
      · exact ih (n / 10) (by omega) h
      · rw [h, CodePoint.isDigit, val_digit (Nat.mod_lt n (by omega))]
        simp only [Bool.and_eq_true, decide_eq_true_eq]
        omega

theorem ofNat_ne_nil (n : Nat) : ofNat n ≠ [] := by
  rw [ofNat]
  by_cases h : n < 10
  · simp [h]
  · simp [h]

end Text

end LiteralSplice
