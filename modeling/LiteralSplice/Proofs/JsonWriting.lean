/-
What is written as JSON, and read back.

* **`Json.MadeOf`**: values made of good texts, counts, arrays and objects;
* **`Json.MadeOf.plain_write`**: a value made of texts without surrogates is written without any;
* **`Json.MadeOf.value_write`**: the reader finds a value that is written, whatever follows it;
* **`Json.MadeOf.read_compact`**, **`Json.MadeOf.read_indented`**: both ways of writing a value
  are read as that value, where the stack has enough levels for it.

Design notes: a number ends only where something follows that cannot go on with it, so here the
text after a value is bounded (`Apart`), as it need not be in `JsonGrammar`, where there are no
numbers.  Between brackets a value is followed by a comma, a line feed or a closing bracket.
-/
import LiteralSplice.Json.Writer
import LiteralSplice.Proofs.Encodings
import LiteralSplice.Proofs.JsonGrammar
import LiteralSplice.Proofs.Texts
import Mathlib.Tactic.IntervalCases

namespace LiteralSplice

namespace Json

open Written

/-- A value made of good texts, of counts that fit, of arrays, and of objects with distinct keys. -/
inductive MadeOf (good : Text → Prop) (fits : Nat → Prop) : Json → Prop
  | count {n} (h : fits n) : MadeOf good fits (.int n)
  | string {t} (h : good t) : MadeOf good fits (.string t)
  | array {vs} (h : ∀ v ∈ vs, MadeOf good fits v) : MadeOf good fits (.array vs)
  | object {ms} (distinct : (ms.map Prod.fst).Nodup) (keys : ∀ m ∈ ms, good m.1)
      (h : ∀ m ∈ ms, MadeOf good fits m.2) : MadeOf good fits (.object ms)

/-- A count with no more digits than a reader takes. -/
def Legible (n : Nat) : Prop := (Text.ofNat n).length ≤ Text.digitLimit

theorem MadeOf.strings {good : Text → Prop} {fits : Nat → Prop} {lines : List Text}
    (h : ∀ line ∈ lines, good line) : MadeOf good fits (.array (lines.map .string)) := by
  refine .array ?_
  intro v hv
  obtain ⟨line, hline, rfl⟩ := List.mem_map.mp hv
  exact .string (h line hline)

/-! ### Strings -/

/-- Four hexadecimal digits of a control character are read as that character. -/
theorem unit?_hex {c : CodePoint} (h : c.val < 0x20) :
    ∃ w x y z, Text.hex 4 c.val = [w, x, y, z] ∧ unit? w x y z = some c := by
  have hall : ∀ n < 0x20, ∃ w x y z, Text.hex 4 n = [w, x, y, z] ∧
      unit? w x y z = some (CodePoint.ofNat n) := by
    intro n hn
    interval_cases n <;> exact ⟨_, _, _, _, rfl, by decide⟩
  obtain ⟨w, x, y, z, hhex, hunit⟩ := hall c.val h
  exact ⟨w, x, y, z, hhex, by rw [hunit, Utf8.ofNat_val]⟩

theorem spellsText_escape (c : CodePoint) {s t : Text} (h : SpellsText s t) :
    SpellsText (escape c ++ s) (c :: t) := by
  rw [escape]
  -- Five characters are escaped by a letter, and two more are given by their numbers.
  iterate 5
    split
    · rename_i hc
      rw [hc]
      exact .short (by decide) h
  split
  · rename_i hc
    obtain rfl : c = CodePoint.ofNat 0x08 := Fin.ext hc
    exact .short (by decide) h
  split
  · rename_i hc
    obtain rfl : c = CodePoint.ofNat 0x0C := Fin.ext hc
    exact .short (by decide) h
  split
  · rename_i hcontrol
    obtain ⟨w, x, y, z, hhex, hunit⟩ := unit?_hex hcontrol
    have hhigh : c.isHighSurrogate = false := by
      rw [CodePoint.isHighSurrogate, Bool.and_eq_false_iff, decide_eq_false_iff_not]
      omega
    rw [hhex]
    exact .unit hunit hhigh h
  · rename_i hquote hslash _ _ _ _ _ hcontrol
    exact .plain (Nat.not_lt.mp hcontrol) hquote hslash h

theorem spellsText_quote (t : Text) : SpellsText (t.flatMap escape) t := by
  induction t with
  | nil => exact .nil
  | cons c t ih => exact spellsText_escape c ih

/-! ### Numbers -/

/-- A text that does not go on with a number before it. -/
def Apart (rest : Text) : Prop :=
  ∀ c, rest.head? = some c → c.isDigit = false ∧ c ≠ CodePoint.ofChar '.' ∧
    c ≠ CodePoint.ofChar 'e' ∧ c ≠ CodePoint.ofChar 'E'

theorem of_isDigit {c : CodePoint} (h : c.isDigit = true) :
    c ∈ openers ∧ c ≠ CodePoint.ofChar '"' ∧ c ≠ CodePoint.ofChar '[' ∧
      c ≠ CodePoint.ofChar '\x7b' := by
  rw [CodePoint.isDigit, Bool.and_eq_true, decide_eq_true_eq, decide_eq_true_eq] at h
  obtain ⟨n, hn, rfl⟩ : ∃ n < 10, c = CodePoint.digit n :=
    ⟨c.val - 0x30, by omega, Fin.ext (by rw [Text.val_digit] <;> omega)⟩
  have hall : ∀ n < 10, CodePoint.digit n ∈ openers ∧ CodePoint.digit n ≠ CodePoint.ofChar '"' ∧
      CodePoint.digit n ≠ CodePoint.ofChar '[' ∧ CodePoint.digit n ≠ CodePoint.ofChar '\x7b' := by
    decide
  exact hall n hn

/-- No word begins with a digit. -/
theorem word?_digit {c : CodePoint} (h : c.isDigit = true) (r : Text) : word? (c :: r) = none := by
  have hall : (words.all fun w => w.1.head?.any fun d => !d.isDigit) = true := by decide
  rw [word?, Option.map_eq_none_iff, List.find?_eq_none]
  intro w hw hprefix
  have hfirst := List.all_eq_true.mp hall w hw
  rcases hword : w.1 with _ | ⟨d, s⟩
  · rw [hword] at hfirst
    cases hfirst
  · simp only [hword, List.isPrefixOf_cons_cons, Bool.and_eq_true, beq_iff_eq] at hprefix
    rw [hword, hprefix.1] at hfirst
    simp [h] at hfirst

/-- Only zero is written with a zero ahead. -/
theorem ofNat_eq_zero_cons {n : Nat} {r : Text} (h : Text.ofNat n = CodePoint.ofChar '0' :: r) :
    r = [] := by
  induction n using Nat.strongRecOn generalizing r with
  | ind n ih =>
    rw [Text.ofNat] at h
    by_cases hn : n < 10
    · rw [if_pos hn] at h
      exact (List.cons.inj h).2.symm
    · -- The digits before the last one are those of a smaller number, which is not zero.
      rw [if_neg hn] at h
      obtain ⟨d, s, hs⟩ := List.exists_cons_of_ne_nil (Text.ofNat_ne_nil (n / 10))
      rw [hs, List.cons_append] at h
      obtain ⟨rfl, -⟩ := List.cons.inj h
      obtain rfl := ih (n / 10) (by omega) hs
      have hzero : Text.ofNat 0 = [CodePoint.ofChar '0'] := by
        rw [Text.ofNat, if_pos (by omega)]
        rfl
      have htens := Text.ofNat_injective (hs.trans hzero.symm)
      omega

theorem wholeDigits_ofNat (n : Nat) {rest : Text} (hrest : Apart rest) :
    wholeDigits (Text.ofNat n ++ rest) = (Text.ofNat n, rest) := by
  have hstop : rest.takeWhile CodePoint.isDigit = [] ∧ rest.dropWhile CodePoint.isDigit = rest := by
    rcases rest with _ | ⟨c, rest⟩
    · exact ⟨rfl, rfl⟩
    · have hc : ¬ c.isDigit = true := by simp [(hrest c rfl).1]
      exact ⟨List.takeWhile_cons_of_neg hc, List.dropWhile_cons_of_neg hc⟩
  have hdigits : ∀ c ∈ Text.ofNat n, c.isDigit = true := fun c => Text.isDigit_of_mem_ofNat
  obtain ⟨c, r, hcr⟩ := List.exists_cons_of_ne_nil (Text.ofNat_ne_nil n)
  by_cases hc : c = CodePoint.ofChar '0'
  · rw [hc] at hcr
    have hr := ofNat_eq_zero_cons hcr
    rw [hcr, hr]
    rfl
  · have hall : wholeDigits (Text.ofNat n ++ rest)
        = ((Text.ofNat n ++ rest).takeWhile CodePoint.isDigit,
          (Text.ofNat n ++ rest).dropWhile CodePoint.isDigit) := by
      rw [hcr]
      exact if_neg hc
    rw [hall, List.takeWhile_append_of_pos hdigits, List.dropWhile_append_of_pos hdigits, hstop.1,
      hstop.2, List.append_nil]

/-- The digits of a count are read as the count. -/
theorem number_ofNat {n : Nat} (hn : Legible n) {rest : Text} (hrest : Apart rest) :
    number (Text.ofNat n ++ rest) = .ok (.int n, rest) := by
  have hwhole := wholeDigits_ofNat n hrest
  have hfraction : fractionDigits rest = ([], rest) := by
    rcases rest with _ | ⟨c, rest⟩
    · rfl
    · rw [fractionDigits]
      simp [(hrest c rfl).2.1]
  have hexponent : exponent? rest = (none, rest) := by
    rcases rest with _ | ⟨c, rest⟩
    · rfl
    · simp only [exponent?]
      simp [(hrest c rfl).2.2.1, (hrest c rfl).2.2.2]
  have hvalue : digitsValue (Text.ofNat n) = n := Text.ofDigits_ofNat n
  obtain ⟨c, r, hcr⟩ := List.exists_cons_of_ne_nil (Text.ofNat_ne_nil n)
  have hminus : c ≠ CodePoint.ofChar '-' := by
    have hdigit : c.isDigit = true := Text.isDigit_of_mem_ofNat (hcr ▸ List.mem_cons_self)
    intro he
    rw [he] at hdigit
    exact absurd hdigit (by decide)
  rw [Legible, hcr] at hn
  rw [hcr] at hwhole hvalue ⊢
  rw [List.cons_append] at hwhole ⊢
  simp only [number, if_neg hminus, hwhole, hfraction, hexponent, List.cons_ne_nil, if_false,
    and_self, if_true, Nat.not_lt.mpr hn, hvalue]
  rfl

theorem value_count {n levels fuel : Nat} (hn : Legible n) {rest : Text} (hrest : Apart rest) :
    value levels (fuel + 1) (Text.ofNat n ++ rest) = .ok (.int n, rest) := by
  have hnumber := number_ofNat hn hrest
  obtain ⟨c, r, hcr⟩ := List.exists_cons_of_ne_nil (Text.ofNat_ne_nil n)
  have hdigit : c.isDigit = true := Text.isDigit_of_mem_ofNat (hcr ▸ List.mem_cons_self)
  obtain ⟨-, hquote, hbracket, hbrace⟩ := of_isDigit hdigit
  rw [hcr, List.cons_append] at hnumber ⊢
  rw [value.eq_def]
  simp only [if_neg hquote, if_neg hbrace, if_neg hbracket, word?_digit hdigit, hnumber]

/-! ### Arrays and objects -/

theorem Spaces.nil : Spaces [] := nofun

theorem spaces_singleton {c : CodePoint} (hc : isSpace c = true) : Spaces [c] := by
  intro x hx
  rw [List.mem_singleton.mp hx]
  exact hc

/-- There is a colon after a key, and nothing else but blanks. -/
def Parted (layout : Written.Layout) : Prop :=
  ∃ w, Spaces w ∧ layout.afterKey = CodePoint.ofChar ':' :: w

theorem Spaces.apart {w r : Text} (hw : Spaces w) (hr : Apart r) : Apart (w ++ r) := by
  rcases w with _ | ⟨d, w⟩
  · exact hr
  · have hspace : isSpace d = true := hw d List.mem_cons_self
    simp only [isSpace, Bool.or_eq_true, beq_iff_eq] at hspace
    intro x hx
    cases hx
    rcases hspace with ((rfl | rfl) | rfl) | rfl <;> decide

theorem apart_cons {c : CodePoint} (r : Text) (hc : c.isDigit = false ∧ c ≠ CodePoint.ofChar '.' ∧
    c ≠ CodePoint.ofChar 'e' ∧ c ≠ CodePoint.ofChar 'E') : Apart (c :: r) := by
  intro x hx
  cases hx
  exact hc

theorem depth_le_itemsDepth {v : Json} {vs : List Json} (hv : v ∈ vs) :
    v.depth ≤ itemsDepth vs := by
  induction vs with
  | nil => exact absurd hv List.not_mem_nil
  | cons first rest ih =>
    rw [itemsDepth]
    rcases List.mem_cons.mp hv with rfl | hv
    · exact Nat.le_max_left _ _
    · exact Nat.le_trans (ih hv) (Nat.le_max_right _ _)

theorem depth_le_membersDepth {m : Text × Json} {ms : List (Text × Json)} (hm : m ∈ ms) :
    m.2.depth ≤ membersDepth ms := by
  induction ms with
  | nil => exact absurd hm List.not_mem_nil
  | cons first rest ih =>
    rw [membersDepth]
    rcases List.mem_cons.mp hm with rfl | hm
    · exact Nat.le_max_left _ _
    · exact Nat.le_trans (ih hm) (Nat.le_max_right _ _)

theorem writeItems_eq_map (layout : Written.Layout) (depth : Nat) (vs : List Json) :
    writeItems layout depth vs = vs.map (write layout depth) := by
  induction vs with
  | nil => rw [writeItems, List.map_nil]
  | cons v rest ih => rw [writeItems, ih, List.map_cons]

/-- A member as it is written. -/
def writtenMember (layout : Written.Layout) (depth : Nat) (m : Text × Json) : Text :=
  quote m.1 ++ layout.afterKey ++ write layout depth m.2

theorem writeMembers_eq_map (layout : Written.Layout) (depth : Nat) (ms : List (Text × Json)) :
    writeMembers layout depth ms = ms.map (writtenMember layout depth) := by
  induction ms with
  | nil => rw [writeMembers, List.map_nil]
  | cons m rest ih => rw [writeMembers, ih, List.map_cons, writtenMember]

/-- Pieces between brackets have blanks after the opening bracket and after every comma, the same
ones, and blanks before the closing bracket. -/
theorem enclose_eq (layout : Written.Layout) (depth : Nat) (opening closing : CodePoint)
    {pieces : List Text} (hne : pieces ≠ []) :
    ∃ w w', Spaces w ∧ Spaces w' ∧ layout.enclose depth opening closing pieces
      = opening :: (w ++ (Text.join (CodePoint.ofChar ',' :: w) pieces ++ (w' ++ [closing]))) := by
  have hline : ∀ n, Spaces (CodePoint.ofChar '\n' :: List.replicate n (CodePoint.ofChar ' ')) := by
    intro n c hc
    rcases List.mem_cons.mp hc with rfl | hc
    · rfl
    · rw [List.eq_of_mem_replicate hc]
      rfl
  obtain ⟨piece, rest, rfl⟩ := List.exists_cons_of_ne_nil hne
  rcases layout with ⟨afterKey, _ | _⟩
  · exact ⟨[], [], Spaces.nil, Spaces.nil, rfl⟩
  · refine ⟨_, _, hline (2 * (depth + 1)), hline (2 * depth), ?_⟩
    simp only [Layout.enclose, if_true, List.append_assoc, List.cons_append]
    rfl

/-- Distinct members that are put into an object one after the other are its members. -/
theorem foldl_insert (before : List (Text × Json)) {ms : List (Text × Json)}
    (h : ((before ++ ms).map Prod.fst).Nodup) :
    ms.foldl (fun ms (m : Text × Json) => insert ms m.1 m.2) before = before ++ ms := by
  induction ms generalizing before with
  | nil => rw [List.foldl_nil, List.append_nil]
  | cons m rest ih =>
    have hnew : ∀ those : List (Text × Json), m.1 ∉ those.map Prod.fst →
        insert those m.1 m.2 = those ++ [m] := by
      intro those hthose
      induction those with
      | nil => rfl
      | cons first those ih =>
        rw [List.map_cons, List.mem_cons, not_or] at hthose
        rw [insert, if_neg (Ne.symm hthose.1), ih hthose.2, List.cons_append]
    have hsplit : before ++ m :: rest = before ++ [m] ++ rest := by simp
    have hout : m.1 ∉ before.map Prod.fst := by
      rw [List.map_append, List.map_cons] at h
      intro hmem
      exact (List.nodup_append.mp h).2.2 _ hmem _ List.mem_cons_self rfl
    rw [List.foldl_cons, hnew before hout, hsplit]
    exact ih _ (hsplit ▸ h)

/-! ### Texts without surrogates -/

theorem plain_escape {c : CodePoint} (hc : c.isSurrogate = false) : Text.Plain (escape c) := by
  rw [escape]
  iterate 7
    split
    · exact Text.plain_of_all (by decide)
  split
  · rename_i hcontrol
    have hall : ∀ n < 0x20, ((Text.hex 4 n).all fun c => !c.isSurrogate) = true := by decide
    exact Text.Plain.append (Text.plain_of_all (by decide))
      (Text.plain_of_all (hall c.val hcontrol))
  · exact Text.Plain.cons hc nofun

theorem plain_quote {t : Text} (h : t.Plain) : (quote t).Plain := by
  have hquote : Text.Plain "\"" := Text.plain_of_all (by decide)
  have hbody : Text.Plain (t.flatMap escape) := by
    intro x hx
    obtain ⟨c, hc, hx⟩ := List.mem_flatMap.mp hx
    exact plain_escape (h c hc) x hx
  exact (hquote.append hbody).append hquote

theorem plain_enclose {layout : Written.Layout} {depth : Nat} {opening closing : CodePoint}
    (ho : opening.isSurrogate = false) (hc : closing.isSurrogate = false) {pieces : List Text}
    (h : ∀ piece ∈ pieces, piece.Plain) : (layout.enclose depth opening closing pieces).Plain := by
  by_cases hne : pieces = []
  · rw [hne]
    exact Text.Plain.cons ho (Text.Plain.cons hc nofun)
  obtain ⟨w, w', hw, hw', henclosed⟩ := enclose_eq layout depth opening closing hne
  have hspaces : ∀ {w : Text}, Spaces w → w.Plain := by
    intro w hw c hc
    have hspace := hw c hc
    simp only [isSpace, Bool.or_eq_true, beq_iff_eq] at hspace
    rcases hspace with ((rfl | rfl) | rfl) | rfl <;> rfl
  have hjoin : ∀ {pieces : List Text}, (∀ piece ∈ pieces, piece.Plain) →
      (Text.join (CodePoint.ofChar ',' :: w) pieces).Plain := by
    intro pieces h
    induction pieces with
    | nil => exact nofun
    | cons piece others ih =>
      obtain ⟨hpiece, hothers⟩ := List.forall_mem_cons.mp h
      rw [Text.join_cons]
      refine hpiece.append ?_
      split
      · exact nofun
      · exact (Text.Plain.cons rfl (hspaces hw)).append (ih hothers)
  rw [henclosed]
  exact Text.Plain.cons ho ((hspaces hw).append ((hjoin h).append
    ((hspaces hw').append (Text.Plain.cons hc nofun))))

/-- A value made of texts without surrogates is written without any. -/
theorem MadeOf.plain_write {layout : Written.Layout} (hkey : layout.afterKey.Plain)
    {fits : Nat → Prop} {v : Json} (h : MadeOf Text.Plain fits v) (depth : Nat) :
    (write layout depth v).Plain := by
  induction h generalizing depth with
  | @count n hn =>
    rw [write]
    exact Text.plain_ofNat n
  | string ht =>
    rw [write]
    exact plain_quote ht
  | array h ih =>
    rw [write, writeItems_eq_map]
    refine plain_enclose rfl rfl ?_
    intro piece hpiece
    obtain ⟨v, hv, rfl⟩ := List.mem_map.mp hpiece
    exact ih v hv (depth + 1)
  | object hdistinct hkeys h ih =>
    rw [write, writeMembers_eq_map]
    refine plain_enclose rfl rfl ?_
    intro piece hpiece
    obtain ⟨m, hm, rfl⟩ := List.mem_map.mp hpiece
    exact ((plain_quote (hkeys m hm)).append hkey).append (ih m hm (depth + 1))

/-! ### Values -/

section

variable {good : Text → Prop} {fits : Nat → Prop} {layout : Written.Layout} {w w' rest : Text}
  {v : Json} {vs : List Json} {ms : List (Text × Json)}

theorem MadeOf.opens (h : MadeOf good fits v) (layout : Written.Layout) (depth : Nat) :
    ∃ c r, write layout depth v = c :: r ∧ c ∈ openers := by
  have hbracket : ∀ (o c : CodePoint) (pieces : List Text),
      ∃ r, layout.enclose depth o c pieces = o :: r := by
    intro o c pieces
    by_cases hne : pieces = []
    · rw [hne]
      exact ⟨_, rfl⟩
    · obtain ⟨w, w', -, -, henclosed⟩ := enclose_eq layout depth o c hne
      exact ⟨_, henclosed⟩
  cases h with
  | @count n hn =>
    obtain ⟨c, r, hcr⟩ := List.exists_cons_of_ne_nil (Text.ofNat_ne_nil n)
    have hdigit : c.isDigit = true := Text.isDigit_of_mem_ofNat (hcr ▸ List.mem_cons_self)
    exact ⟨c, r, by rw [write]; exact hcr, (of_isDigit hdigit).1⟩
  | string => exact ⟨_, _, by rw [write]; rfl, by decide⟩
  | @array vs =>
    obtain ⟨r, hr⟩ := hbracket '[' ']' (writeItems layout (depth + 1) vs)
    exact ⟨_, r, by rw [write, hr], by decide⟩
  | @object ms =>
    obtain ⟨r, hr⟩ := hbracket '\x7b' '\x7d' (writeMembers layout (depth + 1) ms)
    exact ⟨_, r, by rw [write, hr], by decide⟩

theorem join_opens {sep : Text} {pieces : List Text} (hne : pieces ≠ [])
    (h : ∀ piece ∈ pieces, ∃ c r, piece = c :: r ∧ c ∈ openers) :
    ∃ c r, Text.join sep pieces = c :: r ∧ c ∈ openers := by
  obtain ⟨piece, others, rfl⟩ := List.exists_cons_of_ne_nil hne
  obtain ⟨c, r, rfl, hc⟩ := h piece List.mem_cons_self
  exact ⟨c, _, by rw [Text.join_cons, List.cons_append], hc⟩

/-- A written value is read as that value with as many levels as it is deep, in so many steps for
each character, if what follows it does not go on with a number. -/
def ReadsBack (layout : Written.Layout) (v : Json) : Prop :=
  ∀ levels depth fuel rest, v.depth ≤ levels → 2 * (write layout depth v).length ≤ fuel →
    Apart rest → value levels fuel (write layout depth v ++ rest) = .ok (v, rest)

theorem items_write (hgood : ∀ v ∈ vs, MadeOf good fits v) (hreads : ∀ v ∈ vs, ReadsBack layout v)
    {levels : Nat} (hlevels : ∀ v ∈ vs, v.depth ≤ levels) (hne : vs ≠ []) (hw : Spaces w)
    (hw' : Spaces w') (depth fuel : Nat) (rest : Text)
    (hfuel : 2 * (Text.join (CodePoint.ofChar ',' :: w) (writeItems layout depth vs)).length + 1
      ≤ fuel) :
    items levels fuel (Text.join (CodePoint.ofChar ',' :: w) (writeItems layout depth vs)
      ++ (w' ++ CodePoint.ofChar ']' :: rest)) = .ok (vs, rest) := by
  have hcomma : ∀ r, Apart (CodePoint.ofChar ',' :: r) := fun r => apart_cons r (by decide)
  have hclosing : Apart (w' ++ CodePoint.ofChar ']' :: rest) := hw'.apart (apart_cons _ (by decide))
  rw [writeItems_eq_map] at hfuel ⊢
  induction vs generalizing fuel with
  | nil => exact absurd rfl hne
  | cons v others ih =>
    obtain ⟨fuel, rfl⟩ : ∃ f, fuel = f + 1 := ⟨fuel - 1, by omega⟩
    have hv := hreads v List.mem_cons_self levels
    have hdepth := hlevels v List.mem_cons_self
    rw [List.map_cons, Text.join_cons] at hfuel ⊢
    rcases others with _ | ⟨next, others⟩
    · simp only [List.map_nil, if_true, List.append_nil] at hfuel ⊢
      exact items_last (hv depth fuel _ hdepth (by omega) hclosing) hw'
    · -- After a comma the items go on with the first character of the next one.
      obtain ⟨c, r, hcr, hc⟩ :=
        (hgood next (List.mem_cons_of_mem v List.mem_cons_self)).opens layout depth
      have hrest := ih (fun u hu => hgood u (List.mem_cons_of_mem v hu))
        (fun u hu => hreads u (List.mem_cons_of_mem v hu))
        (fun u hu => hlevels u (List.mem_cons_of_mem v hu)) (List.cons_ne_nil next others) fuel
      rw [if_neg (by simp)] at hfuel ⊢
      rw [List.map_cons, Text.join_cons, hcr] at hrest hfuel ⊢
      simp only [List.append_assoc, List.cons_append] at hrest hfuel ⊢
      simp only [List.length_append, List.length_cons] at hfuel hrest
      exact items_cons (hv depth fuel _ hdepth (by omega) (hcomma _)) Spaces.nil hw hc
        (hrest (by omega))

theorem members_write (hkey : Parted layout) (hgood : ∀ m ∈ ms, MadeOf good fits m.2)
    (hreads : ∀ m ∈ ms, ReadsBack layout m.2) {levels : Nat}
    (hlevels : ∀ m ∈ ms, m.2.depth ≤ levels) (hne : ms ≠ []) (hw : Spaces w) (hw' : Spaces w')
    (depth fuel : Nat) (rest : Text)
    (hfuel : 2 * (Text.join (CodePoint.ofChar ',' :: w) (writeMembers layout depth ms)).length + 1
      ≤ fuel) :
    members levels fuel (Text.join (CodePoint.ofChar ',' :: w) (writeMembers layout depth ms)
      ++ (w' ++ CodePoint.ofChar '\x7d' :: rest)) = .ok (ms, rest) := by
  have hcomma : ∀ r, Apart (CodePoint.ofChar ',' :: r) := fun r => apart_cons r (by decide)
  have hclosing : Apart (w' ++ CodePoint.ofChar '\x7d' :: rest) :=
    hw'.apart (apart_cons _ (by decide))
  obtain ⟨wk, hwk, hcolon⟩ := hkey
  -- A member is its key between quotes, a colon with blanks, and its value.
  have hmember : ∀ m : Text × Json, writtenMember layout depth m
      = CodePoint.ofChar '"' :: (m.1.flatMap escape ++ CodePoint.ofChar '"' ::
        (CodePoint.ofChar ':' :: (wk ++ write layout depth m.2))) := by
    intro m
    rw [writtenMember, quote, hcolon]
    simp [Text.ofString]
  rw [writeMembers_eq_map] at hfuel ⊢
  induction ms generalizing fuel with
  | nil => exact absurd rfl hne
  | cons m others ih =>
    obtain ⟨fuel, rfl⟩ : ∃ f, fuel = f + 1 := ⟨fuel - 1, by omega⟩
    have hv := hreads m List.mem_cons_self levels
    have hdepth := hlevels m List.mem_cons_self
    have hk := spellsText_quote m.1
    obtain ⟨c, r, hcr, hc⟩ := (hgood m List.mem_cons_self).opens layout depth
    rw [List.map_cons, Text.join_cons, hmember, hcr] at hfuel ⊢
    have hvalue := hv depth fuel
    rw [hcr] at hvalue
    rcases others with _ | ⟨next, others⟩
    · simp only [List.map_nil, if_true, List.append_nil, List.append_assoc,
        List.cons_append] at hfuel ⊢
      simp only [List.length_append, List.length_cons] at hfuel hvalue
      exact members_last hk Spaces.nil hwk hc (hvalue _ hdepth (by omega) hclosing) hw'
    · have hrest := ih (fun u hu => hgood u (List.mem_cons_of_mem m hu))
        (fun u hu => hreads u (List.mem_cons_of_mem m hu))
        (fun u hu => hlevels u (List.mem_cons_of_mem m hu)) (List.cons_ne_nil next others) fuel
      rw [if_neg (by simp)] at hfuel ⊢
      rw [List.map_cons, Text.join_cons, hmember] at hrest hfuel ⊢
      simp only [List.append_assoc, List.cons_append] at hrest hfuel ⊢
      simp only [List.length_append, List.length_cons] at hfuel hrest hvalue
      refine members_cons hk Spaces.nil hwk hc ?_ Spaces.nil hw (by decide) (hrest (by omega))
      exact hvalue _ hdepth (by omega) (hcomma _)

/-- **A written value is read as that value**, in every layout with a colon after a key. -/
theorem MadeOf.readsBack (hkey : Parted layout) (h : MadeOf good Legible v) :
    ReadsBack layout v := by
  have hfuels : ∀ {fuel depth v}, MadeOf good Legible v → 2 * (write layout depth v).length ≤ fuel →
      ∃ f, fuel = f + 1 := by
    intro fuel depth v hv hfuel
    obtain ⟨c, r, hcr, -⟩ := hv.opens layout depth
    rw [hcr, List.length_cons] at hfuel
    exact ⟨fuel - 1, by omega⟩
  induction h with
  | @count n hn =>
    intro levels depth fuel rest hlevels hfuel hrest
    obtain ⟨fuel, rfl⟩ := hfuels (.count hn) hfuel
    rw [write]
    exact value_count hn hrest
  | @string t ht =>
    intro levels depth fuel rest hlevels hfuel hrest
    obtain ⟨fuel, rfl⟩ := hfuels (.string ht) hfuel
    rw [write]
    have hquoted : quote t ++ rest
        = CodePoint.ofChar '"' :: (t.flatMap escape ++ CodePoint.ofChar '"' :: rest) := by
      simp [quote, Text.ofString]
    rw [hquoted]
    exact value_string (spellsText_quote t)
  | @array vs h ih =>
    intro levels depth fuel rest hlevels hfuel hrest
    obtain ⟨fuel, rfl⟩ := hfuels (.array h) hfuel
    rw [Json.depth] at hlevels
    obtain ⟨levels, rfl⟩ : ∃ l, levels = l + 1 := ⟨levels - 1, by omega⟩
    by_cases hne : vs = []
    · rw [hne, write, writeItems]
      exact value_noItems Spaces.nil
    have hpieces : writeItems layout (depth + 1) vs ≠ [] := by
      rw [writeItems_eq_map]
      exact fun hnil => hne (List.map_eq_nil_iff.mp hnil)
    obtain ⟨w, w', hw, hw', henclosed⟩ := enclose_eq layout depth '[' ']' hpieces
    have hinner : ∀ v ∈ vs, v.depth ≤ levels := fun v hv =>
      Nat.le_trans (depth_le_itemsDepth hv) (by omega)
    have hitems := items_write h ih hinner hne hw hw' (depth + 1) fuel rest
    obtain ⟨c, r, hcr, hc⟩ : ∃ c r, Text.join (CodePoint.ofChar ',' :: w)
        (writeItems layout (depth + 1) vs) = c :: r ∧ c ∈ openers := by
      refine join_opens hpieces ?_
      intro piece hpiece
      rw [writeItems_eq_map] at hpiece
      obtain ⟨v, hv, rfl⟩ := List.mem_map.mp hpiece
      exact (h v hv).opens layout (depth + 1)
    rw [write, henclosed, hcr] at hfuel ⊢
    rw [hcr] at hitems
    simp only [List.append_assoc, List.cons_append, List.nil_append] at hitems ⊢
    simp only [List.length_append, List.length_cons] at hfuel hitems
    exact value_array hw hc (hitems (by omega))
  | @object ms hdistinct hkeys h ih =>
    intro levels depth fuel rest hlevels hfuel hrest
    obtain ⟨fuel, rfl⟩ := hfuels (.object hdistinct hkeys h) hfuel
    rw [Json.depth] at hlevels
    obtain ⟨levels, rfl⟩ : ∃ l, levels = l + 1 := ⟨levels - 1, by omega⟩
    by_cases hne : ms = []
    · rw [hne, write, writeMembers]
      exact value_noMembers Spaces.nil
    have hpieces : writeMembers layout (depth + 1) ms ≠ [] := by
      rw [writeMembers_eq_map]
      exact fun hnil => hne (List.map_eq_nil_iff.mp hnil)
    obtain ⟨w, w', hw, hw', henclosed⟩ := enclose_eq layout depth '\x7b' '\x7d' hpieces
    have hinner : ∀ m ∈ ms, m.2.depth ≤ levels := fun m hm =>
      Nat.le_trans (depth_le_membersDepth hm) (by omega)
    have hmembers := members_write hkey h ih hinner hne hw hw' (depth + 1) fuel rest
    obtain ⟨c, r, hcr, hc⟩ : ∃ c r, Text.join (CodePoint.ofChar ',' :: w)
        (writeMembers layout (depth + 1) ms) = c :: r ∧ c ∈ openers := by
      refine join_opens hpieces ?_
      intro piece hpiece
      rw [writeMembers_eq_map] at hpiece
      obtain ⟨m, hm, rfl⟩ := List.mem_map.mp hpiece
      exact ⟨CodePoint.ofChar '"', _, rfl, by decide⟩
    rw [write, henclosed, hcr] at hfuel ⊢
    rw [hcr] at hmembers
    simp only [List.append_assoc, List.cons_append, List.nil_append] at hmembers ⊢
    simp only [List.length_append, List.length_cons] at hfuel hmembers
    rw [value_object hw hc (hmembers (by omega))]
    -- The keys are distinct, so no member takes the place of another.
    exact congrArg (fun ms => Except.ok (Json.object ms, rest)) (foldl_insert [] hdistinct)

variable [Stack]

/-- A value that is written in a layout, with blanks after it, is read as that value. -/
theorem MadeOf.read_write (hkey : Parted layout) (h : MadeOf good Legible v)
    (hlevels : v.depth ≤ Stack.levels) (depth : Nat) (hw : Spaces w) :
    read (write layout depth v ++ w) = .ok v := by
  obtain ⟨c, r, hcr, hc⟩ := h.opens layout depth
  have hskip : skip (write layout depth v ++ w) = write layout depth v ++ w := by
    rw [hcr, List.cons_append]
    exact Spaces.nil.skip_append (of_mem_openers hc).1
  have happart : Apart w := by
    rw [← List.append_nil w]
    exact hw.apart nofun
  have hvalue := h.readsBack hkey Stack.levels depth (2 * (write layout depth v ++ w).length + 2) w
    hlevels (by rw [List.length_append]; omega) happart
  rw [read, hskip, hvalue]
  simp only [hw.skip_self]

theorem MadeOf.read_compact (h : MadeOf good Legible v) (hlevels : v.depth ≤ Stack.levels) :
    read v.compact = .ok v := by
  have hparted : Parted ⟨":", false⟩ := ⟨[], Spaces.nil, rfl⟩
  have hread := h.read_write hparted hlevels 0 Spaces.nil
  rwa [List.append_nil] at hread

theorem MadeOf.read_indented (h : MadeOf good Legible v) (hlevels : v.depth ≤ Stack.levels) :
    read (v.indented ++ "\n") = .ok v := by
  have hparted : Parted ⟨": ", true⟩ := ⟨[CodePoint.ofChar ' '], spaces_singleton rfl, rfl⟩
  exact h.read_write hparted hlevels 0 (spaces_singleton rfl)

end

end Json

end LiteralSplice
