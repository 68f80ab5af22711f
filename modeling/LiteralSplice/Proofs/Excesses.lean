/-
More than can be read.

* **`Json.number_eq_exceeded`**: a number is refused for its length exactly if it is an integer with
  too many digits;
* **`Json.Meets`**: such an integer, or a bracket that opens one level too many, is met in a text,
  after parts that are all well formed;
* **`Json.refusesMet`**: with enough fuel a text is refused for more than can be read exactly if
  that is met in it;
* **`Json.readDocument_eq_exceeded`**: so it is with a document;
* **`Json.Meets.exists_run`**: a text in which an integer is met holds that many digits in a row.

Design notes: a text is read from its start to the first thing that is wrong with it, so what is
more than can be read is reported only where nothing before it is.  What has been passed is said by
the reader itself, what is met by the shape of the text.  The levels are those that are left at the
place, and a bracket takes one of them.
-/
import LiteralSplice.Proofs.JsonWriting
import LiteralSplice.Proofs.Remainders

namespace LiteralSplice

namespace Json

/-! ### Numbers -/

/-- A fraction or an exponent stands at the start of a text. -/
def GoesOn (rest : Text) : Prop :=
  (∃ d r, rest = CodePoint.ofChar '.' :: d :: r ∧ d.isDigit = true) ∨
    ∃ e sign d r, rest = e :: (sign ++ d :: r) ∧
      (e = CodePoint.ofChar 'e' ∨ e = CodePoint.ofChar 'E') ∧
      sign ∈ [[], ("+" : Text), ("-" : Text)] ∧ d.isDigit = true

/-- More digits than are read, the first of them no zero, and behind them neither a digit, a
fraction nor an exponent. -/
structure LongRun (n : Nat) (run rest : Text) : Prop where
  digits : ∀ c ∈ run, c.isDigit = true
  zero : run.head? ≠ some (CodePoint.ofChar '0')
  stops : ∀ c, rest.head? = some c → c.isDigit = false
  ends : ¬ GoesOn rest
  length : run.length = n
  limit : Text.digitLimit < n

/-- An integer with more digits than are read stands at the start of a text. -/
inductive OverLong (n : Nat) : Text → Prop
  | mk {sign run rest} (hsign : sign = [] ∨ sign = "-") (h : LongRun n run rest) :
      OverLong n (sign ++ (run ++ rest))

theorem takeWhile_eq_nil {t : Text} :
    t.takeWhile CodePoint.isDigit = [] ↔ ¬ ∃ d r, t = d :: r ∧ d.isDigit = true := by
  rcases t with _ | ⟨d, r⟩
  · exact ⟨fun _ => fun ⟨_, _, h, _⟩ => (nomatch h), fun _ => rfl⟩
  · rw [List.takeWhile_cons]
    by_cases hd : d.isDigit = true
    · rw [if_pos hd]
      exact ⟨nofun, fun h => absurd ⟨d, r, rfl, hd⟩ h⟩
    · rw [if_neg hd]
      exact ⟨fun _ => fun ⟨_, _, h, hd'⟩ => hd ((List.cons.inj h).1 ▸ hd'), fun _ => rfl⟩

/-- There is a fraction where a digit follows a point. -/
theorem fractionDigits_cases (t : Text) :
    (fractionDigits t).1 ≠ [] ∧ (∃ d r, t = CodePoint.ofChar '.' :: d :: r ∧ d.isDigit = true) ∨
      fractionDigits t = ([], t) ∧
        ¬ ∃ d r, t = CodePoint.ofChar '.' :: d :: r ∧ d.isDigit = true := by
  rcases t with _ | ⟨c, r⟩
  · exact .inr ⟨rfl, fun ⟨_, _, h, _⟩ => nomatch h⟩
  rw [fractionDigits]
  split
  · rename_i h
    obtain ⟨rfl, hdigits⟩ := h
    rw [ne_eq, takeWhile_eq_nil, not_not] at hdigits
    obtain ⟨d, r', rfl, hd⟩ := hdigits
    refine .inl ⟨?_, d, r', rfl, hd⟩
    rw [List.takeWhile_cons, if_pos hd]
    exact List.cons_ne_nil _ _
  · rename_i h
    refine .inr ⟨rfl, ?_⟩
    rintro ⟨d, r', hsame, hd⟩
    obtain ⟨rfl, rfl⟩ := List.cons.inj hsame
    exact h ⟨rfl, fun hnil => takeWhile_eq_nil.mp hnil ⟨d, r', rfl, hd⟩⟩

theorem unsigned_iff {t : Text} :
    (∃ d r, (unsigned t).2 = d :: r ∧ d.isDigit = true) ↔
      ∃ sign d r, t = sign ++ d :: r ∧ sign ∈ [[], ("+" : Text), ("-" : Text)] ∧
        d.isDigit = true := by
  have hsign : ∀ {d : CodePoint}, d.isDigit = true →
      d ≠ CodePoint.ofChar '-' ∧ d ≠ CodePoint.ofChar '+' := by
    rintro d hd
    constructor <;> rintro rfl <;> exact absurd hd (by decide)
  constructor
  · rintro ⟨d, r, h, hd⟩
    rcases t with _ | ⟨s, t⟩
    · cases h
    rw [unsigned] at h
    split at h
    · rename_i hs
      exact ⟨"-", d, r, by rw [hs, ← h]; rfl, by simp, hd⟩
    split at h
    · rename_i hs
      exact ⟨"+", d, r, by rw [hs, ← h]; rfl, by simp, hd⟩
    · exact ⟨[], d, r, h, by simp, hd⟩
  · rintro ⟨sign, d, r, rfl, hmem, hd⟩
    obtain ⟨hminus, hplus⟩ := hsign hd
    simp only [List.mem_cons, List.not_mem_nil, or_false] at hmem
    rcases hmem with rfl | rfl | rfl
    · exact ⟨d, r, by rw [List.nil_append, unsigned, if_neg hminus, if_neg hplus], hd⟩
    · exact ⟨d, r, rfl, hd⟩
    · exact ⟨d, r, rfl, hd⟩

/-- There is an exponent where a digit follows the letter, with a sign or without. -/
theorem exponent?_cases (t : Text) :
    (exponent? t).1 ≠ none ∧ (∃ e sign d r, t = e :: (sign ++ d :: r) ∧
        (e = CodePoint.ofChar 'e' ∨ e = CodePoint.ofChar 'E') ∧
        sign ∈ [[], ("+" : Text), ("-" : Text)] ∧ d.isDigit = true) ∨
      exponent? t = (none, t) ∧ ¬ ∃ e sign d r, t = e :: (sign ++ d :: r) ∧
        (e = CodePoint.ofChar 'e' ∨ e = CodePoint.ofChar 'E') ∧
        sign ∈ [[], ("+" : Text), ("-" : Text)] ∧ d.isDigit = true := by
  rcases t with _ | ⟨c, r⟩
  · exact .inr ⟨rfl, fun ⟨_, _, _, _, h, _⟩ => nomatch h⟩
  rw [exponent?_cons]
  simp only
  split
  · rename_i h
    obtain ⟨hletter, hdigits⟩ := h
    rw [ne_eq, takeWhile_eq_nil, not_not, unsigned_iff] at hdigits
    obtain ⟨sign, d, r', rfl, hsign, hd⟩ := hdigits
    exact .inl ⟨nofun, c, sign, d, r', rfl, hletter, hsign, hd⟩
  · rename_i h
    refine .inr ⟨rfl, ?_⟩
    rintro ⟨e, sign, d, r', hsame, hletter, hsign, hd⟩
    obtain ⟨rfl, rfl⟩ := List.cons.inj hsame
    exact h ⟨hletter, fun hnil => takeWhile_eq_nil.mp hnil
      (unsigned_iff.mpr ⟨sign, d, r', rfl, hsign, hd⟩)⟩

theorem not_goesOn_iff {t : Text} : ¬ GoesOn t ↔
    (fractionDigits t).1 = [] ∧ (exponent? (fractionDigits t).2).1 = none := by
  rw [GoesOn, not_or]
  rcases fractionDigits_cases t with ⟨hsome, hfraction⟩ | ⟨hnone, hfraction⟩
  · exact iff_of_false (fun h => h.1 hfraction) fun h => hsome h.1
  -- Nothing is taken for a fraction, so the exponent is looked for right there.
  rw [hnone]
  rcases exponent?_cases t with ⟨hsome, hexponent⟩ | ⟨hnone, hexponent⟩
  · exact iff_of_false (fun h => h.2 hexponent) fun h => hsome h.2
  · exact iff_of_true ⟨hfraction, hexponent⟩ ⟨rfl, congrArg Prod.fst hnone⟩

/-- Digits that are too many to be a lone zero are whole digits exactly if there is no zero ahead of
them and no digit behind them. -/
theorem wholeDigits_eq_iff {body run rest : Text} (hlimit : Text.digitLimit < run.length) :
    wholeDigits body = (run, rest) ↔
      body = run ++ rest ∧ (∀ c ∈ run, c.isDigit = true) ∧
        run.head? ≠ some (CodePoint.ofChar '0') ∧ ∀ c, rest.head? = some c → c.isDigit = false := by
  constructor
  · intro h
    rcases body with _ | ⟨c, r⟩
    · obtain ⟨rfl, rfl⟩ := Prod.mk.inj h
      cases hlimit
    by_cases hc : c = CodePoint.ofChar '0'
    · rw [wholeDigits, if_pos hc] at h
      obtain ⟨rfl, rfl⟩ := Prod.mk.inj h
      exact absurd hlimit (Nat.not_lt.mpr (show 1 ≤ Text.digitLimit by decide))
    rw [wholeDigits, if_neg hc] at h
    obtain ⟨rfl, rfl⟩ := Prod.mk.inj h
    refine ⟨List.takeWhile_append_dropWhile.symm, fun d hd => List.mem_takeWhile_imp hd, ?_, ?_⟩
    · intro hhead
      rw [List.takeWhile_cons] at hhead
      split at hhead
      · exact hc (Option.some.inj hhead)
      · cases hhead
    · intro d hd
      have hnot := List.head?_dropWhile_not CodePoint.isDigit (c :: r)
      rw [hd] at hnot
      simpa using hnot
  · rintro ⟨rfl, hdigits, hzero, hstops⟩
    obtain ⟨c, r, rfl⟩ := List.exists_cons_of_length_pos (Nat.zero_lt_of_lt hlimit)
    have hc : c ≠ CodePoint.ofChar '0' := fun he => hzero (congrArg some he)
    have hrest : rest.takeWhile CodePoint.isDigit = [] ∧
        rest.dropWhile CodePoint.isDigit = rest := by
      rcases rest with _ | ⟨d, rest⟩
      · exact ⟨rfl, rfl⟩
      · have hd : ¬ d.isDigit = true := by simp [hstops d rfl]
        exact ⟨List.takeWhile_cons_of_neg hd, List.dropWhile_cons_of_neg hd⟩
    have hall : wholeDigits (c :: r ++ rest) = ((c :: r ++ rest).takeWhile CodePoint.isDigit,
        (c :: r ++ rest).dropWhile CodePoint.isDigit) := if_neg hc
    rw [hall, List.takeWhile_append_of_pos hdigits, List.dropWhile_append_of_pos hdigits, hrest.1,
      hrest.2, List.append_nil]

theorem LongRun.exists_cons {n : Nat} {run rest : Text} (h : LongRun n run rest) :
    ∃ c r, run = c :: r ∧ c.isDigit = true := by
  obtain ⟨c, r, rfl⟩ := List.exists_cons_of_length_pos (Nat.zero_lt_of_lt (h.length ▸ h.limit))
  exact ⟨c, r, rfl, h.digits c List.mem_cons_self⟩

/-- A number without a sign is refused for its length exactly if it is an integer with too many
digits. -/
theorem numeral_eq_exceeded {negative : Bool} {left : Nat} {body : Text} {x : Excess} :
    numeral negative left body = .error (.exceeded x) ↔
      ∃ n run rest, x = .digits n ∧ body = run ++ rest ∧ LongRun n run rest := by
  constructor
  · intro h
    rw [numeral] at h
    rcases hwhole : wholeDigits body with ⟨run, rest⟩
    rw [hwhole] at h
    simp only at h
    split at h
    · cases h
    split at h
    · rename_i hinteger
      split at h
      · rename_i hlong
        injection h with h
        injection h with h
        obtain ⟨hsplit, hdigits, hzero, hstops⟩ := (wholeDigits_eq_iff hlong).mp hwhole
        exact ⟨run.length, run, rest, h.symm, hsplit, hdigits, hzero, hstops,
          not_goesOn_iff.mpr hinteger, rfl, hlong⟩
      · cases h
    · cases h
  · rintro ⟨n, run, rest, rfl, rfl, h⟩
    have hlong : Text.digitLimit < run.length := h.length ▸ h.limit
    have hwhole := (wholeDigits_eq_iff hlong).mpr ⟨rfl, h.digits, h.zero, h.stops⟩
    have hsome : run ≠ [] := List.ne_nil_of_length_pos (Nat.zero_lt_of_lt hlong)
    rw [numeral, hwhole]
    simp only [if_neg hsome, if_pos (not_goesOn_iff.mp h.ends), if_pos h.limit, h.length]

/-- A number is refused for its length exactly if it is an integer with too many digits. -/
theorem number_eq_exceeded {t : Text} {x : Excess} :
    number t = .error (.exceeded x) ↔ ∃ n, x = .digits n ∧ OverLong n t := by
  constructor
  · intro h
    by_cases hminus : t.head? = some (CodePoint.ofChar '-')
    · obtain ⟨r, rfl⟩ := List.head?_eq_some_iff.mp hminus
      rw [number_minus, numeral_eq_exceeded] at h
      obtain ⟨n, run, rest, rfl, rfl, h⟩ := h
      have hlong : OverLong n (("-" : Text) ++ (run ++ rest)) := .mk (.inr rfl) h
      exact ⟨n, rfl, hlong⟩
    · rw [number_eq_numeral hminus, numeral_eq_exceeded] at h
      obtain ⟨n, run, rest, rfl, rfl, h⟩ := h
      have hlong : OverLong n (([] : Text) ++ (run ++ rest)) := .mk (.inl rfl) h
      exact ⟨n, rfl, hlong⟩
  · rintro ⟨n, rfl, hsign, h⟩
    rename_i sign run rest
    have hnumeral : ∀ negative left,
        numeral negative left (run ++ rest) = .error (.exceeded (.digits n)) := fun _ _ =>
      numeral_eq_exceeded.mpr ⟨n, run, rest, rfl, rfl, h⟩
    rcases hsign with rfl | rfl
    · obtain ⟨c, r, rfl, hc⟩ := h.exists_cons
      have hminus : (c :: r ++ rest).head? ≠ some (CodePoint.ofChar '-') := by
        intro hhead
        rw [Option.some.inj hhead] at hc
        cases hc
      rw [List.nil_append, number_eq_numeral hminus]
      exact hnumeral _ _
    · exact (number_minus (run ++ rest)).trans (hnumeral _ _)

/-! ### What is met in a text -/

/-- A value stands at the start of a text, and this is left behind it. -/
def StartsWith (levels : Nat) (t : Text) (v : Json) (rest : Text) : Prop :=
  value levels (2 * t.length + 2) t = .ok (v, rest)

/-- What is expected at the start of a text. -/
inductive Expected where
  | value
  | items
  | members

/-- Reading a text within some levels, with nothing wrong so far, comes upon more than can be
read. -/
inductive Meets : Excess → Nat → Expected → Text → Prop
  | number {levels n t} (h : OverLong n t) : Meets (.digits n) levels .value t
  | deepArray {r} : Meets (.nesting .array) 0 .value (CodePoint.ofChar '[' :: r)
  | deepObject {r} : Meets (.nesting .object) 0 .value (CodePoint.ofChar '\x7b' :: r)
  | array {x levels r} (h : Meets x levels .items (skip r)) :
      Meets x (levels + 1) .value (CodePoint.ofChar '[' :: r)
  | object {x levels r} (h : Meets x levels .members (skip r)) :
      Meets x (levels + 1) .value (CodePoint.ofChar '\x7b' :: r)
  | item {x levels t} (h : Meets x levels .value t) : Meets x levels .items t
  | laterItem {x levels t v r r'} (hv : StartsWith levels t v r)
      (hcomma : skip r = CodePoint.ofChar ',' :: r') (h : Meets x levels .items (skip r')) :
      Meets x levels .items t
  | member {x levels t k r r'} (hk : stringBody t = .ok (k, r))
      (hcolon : skip r = CodePoint.ofChar ':' :: r') (h : Meets x levels .value (skip r')) :
      Meets x levels .members (CodePoint.ofChar '"' :: t)
  | laterMember {x levels t k r r' v r₂ r₃} (hk : stringBody t = .ok (k, r))
      (hcolon : skip r = CodePoint.ofChar ':' :: r') (hv : StartsWith levels (skip r') v r₂)
      (hcomma : skip r₂ = CodePoint.ofChar ',' :: r₃) (h : Meets x levels .members (skip r₃)) :
      Meets x levels .members (CodePoint.ofChar '"' :: t)

variable {x : Excess} {n levels fuel : Nat} {c : CodePoint} {t r : Text}

theorem bind_eq_error {ε α β : Type} {x : Except ε α} {f : α → Except ε β} {e : ε} :
    (x >>= f) = .error e ↔ x = .error e ∨ ∃ a, x = .ok a ∧ f a = .error e := by
  cases x <;> simp [bind, Except.bind]

/-- A string is never more than can be read. -/
theorem stringBody_ne_exceeded : stringBody t ≠ .error (.exceeded x) := by
  have hpieces : ∀ opening, stringPieces opening t ≠ .error (.exceeded x) := by
    intro opening h
    fun_induction stringPieces opening t with
    | case4 | case7 | case10 =>
      rename_i ih
      rcases bind_eq_error.mp h with h | ⟨a, -, ha⟩
      · exact ih h
      · cases ha
    | _ => cases h
  intro h
  rcases bind_eq_error.mp h with h | ⟨a, -, ha⟩
  · exact hpieces _ h
  · cases ha

theorem word?_eq_none (h : ∀ w ∈ words, ¬ w.1 <+: t) : word? t = none := by
  rw [word?, Option.map_eq_none_iff, List.find?_eq_none]
  intro w hw hbegins
  exact h w hw (List.isPrefixOf_iff_prefix.mp hbegins)

/-- An integer begins with a digit, or with a sign and a digit, as no word does. -/
theorem OverLong.opens (h : OverLong n t) :
    (∃ c r, t = c :: r ∧ (c = CodePoint.ofChar '-' ∨ c.isDigit = true)) ∧ word? t = none := by
  obtain ⟨hsign, h⟩ := h
  rename_i sign run rest
  obtain ⟨d, r, rfl, hd⟩ := h.exists_cons
  rcases hsign with rfl | rfl
  · exact ⟨⟨d, r ++ rest, rfl, .inr hd⟩, word?_digit hd (r ++ rest)⟩
  · refine ⟨⟨_, _, rfl, .inl rfl⟩, ?_⟩
    have hminus : ("-" : Text) ++ (d :: r ++ rest) = CodePoint.ofChar '-' :: d :: (r ++ rest) := rfl
    -- The one word that begins with a sign goes on with a letter.
    have hall : (words.all fun w => w.1.head?.any (· != CodePoint.ofChar '-')
        || (w.1.drop 1).head?.any fun b => !b.isDigit) = true := by decide
    rw [hminus]
    refine word?_eq_none fun w hw hbegins => ?_
    have hsecond := List.all_eq_true.mp hall w hw
    rcases hword : w.1 with _ | ⟨a, _ | ⟨b, word⟩⟩ <;> rw [hword] at hbegins hsecond
    · cases hsecond
    · obtain ⟨rfl, -⟩ := List.cons_prefix_cons.mp hbegins
      cases hsecond
    · obtain ⟨rfl, hgoes⟩ := List.cons_prefix_cons.mp hbegins
      obtain ⟨rfl, -⟩ := List.cons_prefix_cons.mp hgoes
      simp [hd] at hsecond

/-- An integer begins with no character that begins a string, an array or an object. -/
theorem OverLong.first_ne (h : OverLong n (c :: r)) :
    c ≠ CodePoint.ofChar '"' ∧ c ≠ CodePoint.ofChar '[' ∧ c ≠ CodePoint.ofChar '\x7b' := by
  obtain ⟨⟨d, s, heq, hd⟩, -⟩ := h.opens
  obtain ⟨rfl, -⟩ := List.cons.inj heq
  rcases hd with rfl | hd
  · decide
  · exact (of_isDigit hd).2

/-- A closing bracket is no value. -/
theorem value_close :
    value levels (fuel + 1) (CodePoint.ofChar ']' :: r)
      = .error (.refused .value (r.length + 1)) := by
  have hall : (words.all fun w => w.1.head?.any fun a => a != CodePoint.ofChar ']') = true := by
    decide
  have hword : word? (CodePoint.ofChar ']' :: r) = none := by
    refine word?_eq_none fun w hw hbegins => ?_
    have hfirst := List.all_eq_true.mp hall w hw
    rcases hword : w.1 with _ | ⟨a, word⟩ <;> rw [hword] at hbegins hfirst
    · cases hfirst
    · obtain ⟨rfl, -⟩ := List.cons_prefix_cons.mp hbegins
      cases hfirst
  rw [value.eq_def]
  simp only
  rw [if_neg (by decide), if_neg (by decide), if_neg (by decide), hword]
  rfl

/-- Where an array ends or the text does, no item is more than can be read. -/
theorem items_ne_exceeded (ht : t = [] ∨ t.head? = some (CodePoint.ofChar ']')) :
    items levels fuel t ≠ .error (.exceeded x) := by
  rcases fuel with _ | _ | fuel
  · rintro ⟨⟩
  · rintro ⟨⟩
  rcases ht with rfl | ht
  · rintro ⟨⟩
  · obtain ⟨r, rfl⟩ := List.head?_eq_some_iff.mp ht
    rw [items, value_close]
    rintro ⟨⟩

/-- Where an object ends or the text does, no member is more than can be read. -/
theorem members_ne_exceeded (ht : t = [] ∨ t.head? = some (CodePoint.ofChar '\x7d')) :
    members levels fuel t ≠ .error (.exceeded x) := by
  rcases fuel with _ | fuel
  · rintro ⟨⟩
  rcases ht with rfl | ht
  · rintro ⟨⟩
  · obtain ⟨r, rfl⟩ := List.head?_eq_some_iff.mp ht
    rw [members, if_neg (by decide)]
    rintro ⟨⟩

theorem value_array_eq_exceeded :
    value (levels + 1) (fuel + 1) (CodePoint.ofChar '[' :: r) = .error (.exceeded x) ↔
      items levels fuel (skip r) = .error (.exceeded x) := by
  rw [value, if_neg (by decide), if_neg (by decide), if_pos rfl]
  rcases hskip : skip r with _ | ⟨d, r'⟩
  · refine iff_of_false ?_ (items_ne_exceeded (.inl rfl))
    rintro ⟨⟩
  simp only
  by_cases hd : d = CodePoint.ofChar ']'
  · rw [if_pos hd]
    refine iff_of_false ?_ (items_ne_exceeded (.inr (congrArg some hd)))
    rintro ⟨⟩
  · rw [if_neg hd, bind_eq_error]
    refine or_iff_left ?_
    rintro ⟨a, -, ⟨⟩⟩

theorem value_object_eq_exceeded :
    value (levels + 1) (fuel + 1) (CodePoint.ofChar '\x7b' :: r) = .error (.exceeded x) ↔
      members levels fuel (skip r) = .error (.exceeded x) := by
  rw [value, if_neg (by decide), if_pos rfl]
  rcases hskip : skip r with _ | ⟨d, r'⟩
  · refine iff_of_false ?_ (members_ne_exceeded (.inl rfl))
    rintro ⟨⟩
  simp only
  by_cases hd : d = CodePoint.ofChar '\x7d'
  · rw [if_pos hd]
    refine iff_of_false ?_ (members_ne_exceeded (.inr (congrArg some hd)))
    rintro ⟨⟩
  · rw [if_neg hd, bind_eq_error]
    refine or_iff_left ?_
    rintro ⟨a, -, ⟨⟩⟩

/-- Where neither an array nor an object begins, what is more than can be read is the integer that
stands there. -/
theorem value_other_eq_exceeded (hbracket : t.head? ≠ some (CodePoint.ofChar '['))
    (hbrace : t.head? ≠ some (CodePoint.ofChar '\x7b')) :
    value levels (fuel + 1) t = .error (.exceeded x) ↔ ∃ n, x = .digits n ∧ OverLong n t := by
  rcases t with _ | ⟨c, r⟩
  · refine iff_of_false ?_ ?_
    · rintro ⟨⟩
    · rintro ⟨n, -, h⟩
      obtain ⟨⟨c, r, ⟨⟩, -⟩, -⟩ := h.opens
  have hc : c ≠ CodePoint.ofChar '[' := fun he => hbracket (congrArg some he)
  have hc' : c ≠ CodePoint.ofChar '\x7b' := fun he => hbrace (congrArg some he)
  rw [value.eq_def]
  simp only
  rw [if_neg hc', if_neg hc]
  by_cases hquote : c = CodePoint.ofChar '"'
  · rw [if_pos hquote, bind_eq_error]
    refine iff_of_false ?_ ?_
    · rintro (h | ⟨a, -, ha⟩)
      · exact stringBody_ne_exceeded h
      · cases ha
    · rintro ⟨n, -, h⟩
      exact h.first_ne.1 hquote
  · rw [if_neg hquote]
    rcases hword : word? (c :: r) with _ | found
    · exact number_eq_exceeded
    · refine iff_of_false ?_ ?_
      · rintro ⟨⟩
      · rintro ⟨n, -, h⟩
        cases hword.symm.trans h.opens.2

theorem items_eq_exceeded :
    items levels (fuel + 1) t = .error (.exceeded x) ↔
      value levels fuel t = .error (.exceeded x) ∨
        ∃ v r r', value levels fuel t = .ok (v, r) ∧ skip r = CodePoint.ofChar ',' :: r' ∧
          items levels fuel (skip r') = .error (.exceeded x) := by
  rw [items, bind_eq_error]
  refine or_congr_right ?_
  constructor
  · rintro ⟨⟨v, r⟩, hv, h⟩
    rcases hskip : skip r with _ | ⟨d, r'⟩ <;> simp only [hskip] at h
    · cases h
    split at h
    · cases h
    split at h
    · rename_i hd
      rcases bind_eq_error.mp h with h | ⟨a, -, ha⟩
      · exact ⟨v, r, r', hv, hd ▸ hskip, h⟩
      · cases ha
    · cases h
  · rintro ⟨v, r, r', hv, hskip, h⟩
    refine ⟨(v, r), hv, ?_⟩
    have hclose : CodePoint.ofChar ',' ≠ CodePoint.ofChar ']' := by decide
    simp only [hskip, if_neg hclose, if_true, h]
    rfl

theorem members_eq_exceeded :
    members levels (fuel + 1) t = .error (.exceeded x) ↔
      ∃ s k r r', t = CodePoint.ofChar '"' :: s ∧ stringBody s = .ok (k, r) ∧
        skip r = CodePoint.ofChar ':' :: r' ∧
        (value levels fuel (skip r') = .error (.exceeded x) ∨
          ∃ v r₂ r₃, value levels fuel (skip r') = .ok (v, r₂) ∧
            skip r₂ = CodePoint.ofChar ',' :: r₃ ∧
            members levels fuel (skip r₃) = .error (.exceeded x)) := by
  constructor
  · intro h
    rcases t with _ | ⟨c, s⟩
    · cases h
    rw [members] at h
    split at h
    · rename_i hquote
      rcases bind_eq_error.mp h with h | ⟨⟨k, r⟩, hk, h⟩
      · exact absurd h stringBody_ne_exceeded
      rcases hskip : skip r with _ | ⟨d, r'⟩ <;> simp only [hskip] at h
      · cases h
      split at h
      · rename_i hcolon
        refine ⟨s, k, r, r', by rw [hquote], hk, hcolon ▸ hskip, ?_⟩
        rcases bind_eq_error.mp h with h | ⟨⟨v, r₂⟩, hv, h⟩
        · exact .inl h
        rcases hskip₂ : skip r₂ with _ | ⟨d₂, r₃⟩ <;> simp only [hskip₂] at h
        · cases h
        split at h
        · cases h
        split at h
        · rename_i hcomma
          rcases bind_eq_error.mp h with h | ⟨a, -, ha⟩
          · exact .inr ⟨v, r₂, r₃, hv, hcomma ▸ hskip₂, h⟩
          · cases ha
        · cases h
      · cases h
    · cases h
  · rintro ⟨s, k, r, r', rfl, hk, hcolon, h⟩
    rw [members, if_pos rfl, bind_eq_error]
    refine .inr ⟨(k, r), hk, ?_⟩
    simp only [hcolon, if_true]
    rw [bind_eq_error]
    rcases h with h | ⟨v, r₂, r₃, hv, hcomma, h⟩
    · exact .inl h
    · have hclose : CodePoint.ofChar ',' ≠ CodePoint.ofChar '\x7d' := by decide
      refine .inr ⟨(v, r₂), hv, ?_⟩
      simp only [hcomma, if_neg hclose, if_true, h]
      rfl

theorem startsWith_iff {v : Json} (h : 2 * t.length + 1 ≤ fuel) :
    StartsWith levels t v r ↔ value levels fuel t = .ok (v, r) := by
  rw [StartsWith, (fuel_irrelevant levels fuel (2 * t.length + 2)).1 t h (by omega)]

/-- With so much fuel a text is refused for more than can be read exactly if that is met in it. -/
structure RefusesMet (x : Excess) (levels fuel : Nat) : Prop where
  value : ∀ t : Text, 2 * t.length + 1 ≤ fuel →
    (Json.value levels fuel t = .error (.exceeded x) ↔ Meets x levels .value t)
  items : ∀ t : Text, 2 * t.length + 2 ≤ fuel →
    (Json.items levels fuel t = .error (.exceeded x) ↔ Meets x levels .items t)
  members : ∀ t : Text, 2 * t.length + 1 ≤ fuel →
    (Json.members levels fuel t = .error (.exceeded x) ↔ Meets x levels .members t)

namespace RefusesMet

theorem value_succ (h : ∀ levels, RefusesMet x levels fuel) (ht : 2 * t.length + 1 ≤ fuel + 1) :
    Json.value levels (fuel + 1) t = .error (.exceeded x) ↔ Meets x levels .value t := by
  by_cases hbracket : t.head? = some (CodePoint.ofChar '[')
  · obtain ⟨r, rfl⟩ := List.head?_eq_some_iff.mp hbracket
    have hr := (skip_suffix r).length_le
    rw [List.length_cons] at ht
    rcases levels with _ | levels
    · constructor
      · rintro ⟨⟩
        exact .deepArray
      · intro hmeets
        cases hmeets with
        | number hlong => exact absurd rfl hlong.first_ne.2.1
        | deepArray => rfl
    rw [value_array_eq_exceeded, (h levels).items _ (by omega)]
    refine ⟨.array, fun hmeets => ?_⟩
    cases hmeets with
    | number hlong => exact absurd rfl hlong.first_ne.2.1
    | array hitems => exact hitems
  by_cases hbrace : t.head? = some (CodePoint.ofChar '\x7b')
  · obtain ⟨r, rfl⟩ := List.head?_eq_some_iff.mp hbrace
    have hr := (skip_suffix r).length_le
    rw [List.length_cons] at ht
    rcases levels with _ | levels
    · constructor
      · rintro ⟨⟩
        exact .deepObject
      · intro hmeets
        cases hmeets with
        | number hlong => exact absurd rfl hlong.first_ne.2.2
        | deepObject => rfl
    rw [value_object_eq_exceeded, (h levels).members _ (by omega)]
    refine ⟨.object, fun hmeets => ?_⟩
    cases hmeets with
    | number hlong => exact absurd rfl hlong.first_ne.2.2
    | object hmembers => exact hmembers
  rw [value_other_eq_exceeded hbracket hbrace]
  constructor
  · rintro ⟨n, rfl, hlong⟩
    exact .number hlong
  · intro hmeets
    cases hmeets with
    | number hlong => exact ⟨_, rfl, hlong⟩
    | array | deepArray => exact absurd rfl hbracket
    | object | deepObject => exact absurd rfl hbrace

theorem items_succ (h : RefusesMet x levels fuel) (ht : 2 * t.length + 2 ≤ fuel + 1) :
    Json.items levels (fuel + 1) t = .error (.exceeded x) ↔ Meets x levels .items t := by
  -- Behind an item there is less left than before it, so the bound holds for the next one.
  have hnext : ∀ {v r r'}, Json.value levels fuel t = .ok (v, r) →
      skip r = CodePoint.ofChar ',' :: r' → 2 * (skip r').length + 2 ≤ fuel := by
    intro v r r' hv hcomma
    have hshort := ((leavesBehind levels fuel).1 hv).length_lt
    have hless := length_skip_lt hcomma
    omega
  rw [items_eq_exceeded, h.value t (by omega)]
  constructor
  · rintro (hvalue | ⟨v, r, r', hv, hcomma, hitems⟩)
    · exact .item hvalue
    · exact .laterItem ((startsWith_iff (by omega)).mpr hv) hcomma
        ((h.items _ (hnext hv hcomma)).mp hitems)
  · intro hmeets
    cases hmeets with
    | item hvalue => exact .inl hvalue
    | laterItem hv hcomma hitems =>
      have hbound : 2 * t.length + 1 ≤ fuel := by omega
      have hv := (startsWith_iff hbound).mp hv
      exact .inr ⟨_, _, _, hv, hcomma, (h.items _ (hnext hv hcomma)).mpr hitems⟩

theorem members_succ (h : RefusesMet x levels fuel) (ht : 2 * t.length + 1 ≤ fuel + 1) :
    Json.members levels (fuel + 1) t = .error (.exceeded x) ↔ Meets x levels .members t := by
  have hinner : ∀ {s k r r'}, t = CodePoint.ofChar '"' :: s → stringBody s = .ok (k, r) →
      skip r = CodePoint.ofChar ':' :: r' → 2 * (skip r').length + 1 ≤ fuel := by
    rintro s k r r' rfl hk hcolon
    have hshort := (stringBody_behind hk).length_lt
    have hless := length_skip_lt hcolon
    rw [List.length_cons] at ht
    omega
  have hnext : ∀ {s v r r'}, 2 * s.length + 1 ≤ fuel → Json.value levels fuel s = .ok (v, r) →
      skip r = CodePoint.ofChar ',' :: r' → 2 * (skip r').length + 1 ≤ fuel := by
    intro s v r r' hfuel hv hcomma
    have hshort := ((leavesBehind levels fuel).1 hv).length_lt
    have hless := length_skip_lt hcomma
    omega
  rw [members_eq_exceeded]
  constructor
  · rintro ⟨s, k, r, r', rfl, hk, hcolon, hvalue | ⟨v, r₂, r₃, hv, hcomma, hmembers⟩⟩
    · exact .member hk hcolon ((h.value _ (hinner rfl hk hcolon)).mp hvalue)
    · have hfuel := hinner rfl hk hcolon
      exact .laterMember hk hcolon ((startsWith_iff hfuel).mpr hv) hcomma
        ((h.members _ (hnext hfuel hv hcomma)).mp hmembers)
  · intro hmeets
    cases hmeets with
    | member hk hcolon hvalue =>
      exact ⟨_, _, _, _, rfl, hk, hcolon, .inl ((h.value _ (hinner rfl hk hcolon)).mpr hvalue)⟩
    | laterMember hk hcolon hv hcomma hmembers =>
      have hfuel := hinner rfl hk hcolon
      have hv := (startsWith_iff hfuel).mp hv
      exact ⟨_, _, _, _, rfl, hk, hcolon, .inr ⟨_, _, _, hv, hcomma,
        (h.members _ (hnext hfuel hv hcomma)).mpr hmembers⟩⟩

end RefusesMet

/-- The reader refuses a text for more than can be read exactly if that is met in it. -/
theorem refusesMet (x : Excess) (levels fuel : Nat) : RefusesMet x levels fuel := by
  induction fuel generalizing levels with
  | zero => exact ⟨fun _ h => by omega, fun _ h => by omega, fun _ h => by omega⟩
  | succ fuel ih =>
    exact ⟨fun _ => RefusesMet.value_succ ih, fun _ => (ih levels).items_succ,
      fun _ => (ih levels).members_succ⟩

theorem read_eq_exceeded [Stack] :
    read t = .error (.exceeded x) ↔ Meets x Stack.levels .value (skip t) := by
  have hlength := (skip_suffix t).length_le
  rw [← (refusesMet x Stack.levels (2 * t.length + 2)).value (skip t) (by omega), read]
  rcases value Stack.levels (2 * t.length + 2) (skip t) with stop | ⟨v, rest⟩
  · cases stop with
    | refused reason left => simp only [Stop.fault, Except.error.injEq, reduceCtorEq]
    | exceeded y => simp only [Stop.fault, Except.error.injEq, Fault.exceeded.injEq,
        Stop.exceeded.injEq]
  · simp only [reduceCtorEq, iff_false]
    rcases skip rest with _ | ⟨c, r⟩ <;> rintro ⟨⟩

/-- A document is refused for more than can be read exactly if that is met in it, and no byte order
mark before it. -/
theorem readDocument_eq_exceeded [Stack] :
    readDocument t = .error (.exceeded x) ↔
      t.head? ≠ some (CodePoint.ofNat 0xFEFF) ∧ Meets x Stack.levels .value (skip t) := by
  rw [readDocument]
  split
  · rename_i hmark
    refine iff_of_false ?_ fun h => h.1 hmark
    rintro ⟨⟩
  · rename_i hmark
    exact read_eq_exceeded.trans (and_iff_right hmark).symm

/-- A text in which a long integer is met holds its digits in a row, and they are too many. -/
theorem Meets.exists_run {expected : Expected} (h : Meets (.digits n) levels expected t) :
    Text.digitLimit < n ∧
      ∃ run, run <:+: t ∧ run.length = n ∧ ∀ c ∈ run, c.isDigit = true := by
  have hlater : ∀ {s t : Text}, s <:+ t →
      (Text.digitLimit < n ∧ ∃ run, run <:+: s ∧ run.length = n ∧ ∀ c ∈ run, c.isDigit = true) →
      Text.digitLimit < n ∧ ∃ run, run <:+: t ∧ run.length = n ∧ ∀ c ∈ run, c.isDigit = true := by
    rintro s t hs ⟨hlimit, run, hrun, hlength, hdigits⟩
    exact ⟨hlimit, run, hrun.trans hs.isInfix, hlength, hdigits⟩
  have hstarts : ∀ {levels t v r}, StartsWith levels t v r → r <:+ t := fun hv =>
    ((leavesBehind _ _).1 hv).suffix
  generalize hx : Excess.digits n = x at h
  induction h with
  | number h =>
    cases hx
    obtain ⟨-, h⟩ := h
    exact ⟨h.limit, _, ⟨_, _, List.append_assoc _ _ _⟩, h.length, h.digits⟩
  | deepArray | deepObject => cases hx
  | array _ ih => exact hlater ((skip_suffix _).trans (List.suffix_cons _ _)) (ih hx)
  | object _ ih => exact hlater ((skip_suffix _).trans (List.suffix_cons _ _)) (ih hx)
  | item _ ih => exact ih hx
  | laterItem hv hcomma _ ih =>
    exact hlater ((skip_suffix _).trans ((suffix_of_skip hcomma).trans (hstarts hv))) (ih hx)
  | member hk hcolon _ ih =>
    exact hlater ((skip_suffix _).trans ((suffix_of_skip hcolon).trans
      ((stringBody_behind hk).suffix.trans (List.suffix_cons _ _)))) (ih hx)
  | laterMember hk hcolon hv hcomma _ ih =>
    exact hlater ((skip_suffix _).trans ((suffix_of_skip hcomma).trans ((hstarts hv).trans
      ((skip_suffix _).trans ((suffix_of_skip hcolon).trans
        ((stringBody_behind hk).suffix.trans (List.suffix_cons _ _))))))) (ih hx)

end Json

end LiteralSplice
