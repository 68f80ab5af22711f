/-
Strings that are handed to a pool one after the other.

* **`Pool.intern_ofValues`**, **`Pool.internAll_ofValues`**: one string and a list of strings leave
  what has been handed in, each string at the place where it came first;
* **`Tables.intern_ofPool`**, **`Tables.internAll_ofPool`**: a pool of two tables stays in step with
  a pool of strings, whatever is handed in;
* **`Pool.internAll_firsts`**: what a pool knows after any strings, and what further strings leave
  of it.

Design notes: `List.eraseDups` keeps the first of equal items, so the strings of a pool are the
strings handed in without their repetitions.  Strings that come later only go behind these, which
is why a symbol is never given away again.
-/
import LiteralSplice.Pool.Tables
import LiteralSplice.Proofs.Literals
import Mathlib.Data.List.Induction

namespace LiteralSplice

namespace Pool

variable {p : Pool} {v : Text} {done values more : List Text}

/-! ### First occurrences -/

theorem eraseDups_concat_of_mem (hv : v ∈ values) :
    (values ++ [v]).eraseDups = values.eraseDups := by
  rw [List.eraseDups_append]
  simp [List.removeAll, hv]

theorem eraseDups_concat_of_not_mem (hv : v ∉ values) :
    (values ++ [v]).eraseDups = values.eraseDups ++ [v] := by
  rw [List.eraseDups_append]
  simp [List.removeAll, hv, List.eraseDups_cons]

theorem nodup_eraseDups (values : List Text) : values.eraseDups.Nodup := by
  induction values using List.reverseRecOn with
  | nil => exact List.nodup_nil
  | append_singleton values v ih =>
    by_cases hv : v ∈ values
    · rw [eraseDups_concat_of_mem hv]
      exact ih
    · rw [eraseDups_concat_of_not_mem hv, ← List.concat_eq_append]
      exact ih.concat fun hmem => hv (List.mem_eraseDups.mp hmem)

theorem eraseDups_prefix (values more : List Text) :
    values.eraseDups <+: (values ++ more).eraseDups := by
  rw [List.eraseDups_append]
  exact List.prefix_append _ _

/-- The place of a string is not changed by what comes after it. -/
theorem idxOf_eraseDups_append (hv : v ∈ values) (more : List Text) :
    (values ++ more).eraseDups.idxOf v = values.eraseDups.idxOf v := by
  rw [List.eraseDups_append, List.idxOf_append_of_mem (List.mem_eraseDups.mpr hv)]

/-! ### Symbols of strings -/

theorem symbolFor?_of_mem (hv : v ∈ p.strings) :
    p.symbolFor? v = some (symbol (p.strings.idxOf v)) := by
  have hindex : p.strings.idxOf? v = some (p.strings.idxOf v) := by
    rw [List.idxOf?_eq_some_iff]
    refine ⟨List.idxOf_lt_length_of_mem hv, List.getElem_idxOf _, ?_⟩
    intro j hj
    exact beq_eq_false_iff_ne.mp (List.not_of_lt_findIdx hj)
  rw [symbolFor?, hindex, Option.map_some]

theorem symbolFor?_of_not_mem (hv : v ∉ p.strings) : p.symbolFor? v = none := by
  rw [symbolFor?, List.idxOf?_eq_none_iff.mpr hv, Option.map_none]

/-- The pool of the strings that have been handed in. -/
def ofValues (values : List Text) : Pool := ⟨values.eraseDups⟩

theorem mem_ofValues : v ∈ (ofValues values).strings ↔ v ∈ values := List.mem_eraseDups

/-- A string without surrogates gets the symbol of its place among the first occurrences. -/
theorem intern_ofValues (hv : v.Plain) :
    (ofValues done).intern v
      = .ok (symbol ((done ++ [v]).eraseDups.idxOf v), ofValues (done ++ [v])) := by
  rw [intern]
  by_cases hmem : v ∈ done
  · -- The string has been handed in before.
    rw [symbolFor?_of_mem (mem_ofValues.mpr hmem), idxOf_eraseDups_append hmem, ofValues, ofValues,
      eraseDups_concat_of_mem hmem]
  · have hnew : v ∉ done.eraseDups := fun h => hmem (mem_ofValues.mp h)
    have hindex : (done ++ [v]).eraseDups.idxOf v = done.eraseDups.length := by
      rw [eraseDups_concat_of_not_mem hmem, List.idxOf_append_of_notMem hnew, List.idxOf_cons_self,
        Nat.add_zero]
    rw [symbolFor?_of_not_mem (p := ofValues done) hnew, Utf8.surrogateRun?_eq_none.mpr hv, hindex,
      ofValues, ofValues, eraseDups_concat_of_not_mem hmem]
    rfl

/-- Every call of a run returns the symbol that its string has after the run. -/
theorem internAll_ofValues (hplain : ∀ v ∈ values, v.Plain) :
    (ofValues done).internAll values
      = .ok (values.map fun v => symbol ((done ++ values).eraseDups.idxOf v),
          ofValues (done ++ values)) := by
  induction values generalizing done with
  | nil => rw [internAll, List.append_nil, List.map_nil]
  | cons v rest ih =>
    obtain ⟨hv, hrest⟩ := List.forall_mem_cons.mp hplain
    have hsplit : done ++ v :: rest = done ++ [v] ++ rest := List.append_cons done v rest
    have hmem : v ∈ done ++ [v] := List.mem_append_right done List.mem_cons_self
    -- What comes after the first string does not change the place that it has by then.
    have hindex := idxOf_eraseDups_append hmem rest
    rw [internAll, intern_ofValues hv]
    simp only [bind, Except.bind, ih hrest, List.map_cons, hsplit, hindex]
    rfl

end Pool

/-! ### Two tables -/

namespace Tables

open Pool (symbol)

theorem lookup_zipIdx (strings : List Text) (v : Text) (n : Nat) :
    ((strings.zipIdx n).map fun (w, i) => (w, symbol i)).lookup v
      = (strings.idxOf? v).map fun k => symbol (n + k) := by
  induction strings generalizing n with
  | nil => rfl
  | cons w rest ih =>
    rw [List.zipIdx_cons, List.map_cons, List.lookup_cons, List.idxOf?_cons]
    by_cases hw : w = v
    · subst hw
      simp
    · have hne : (v == w) = false := beq_eq_false_iff_ne.mpr (Ne.symm hw)
      have hne' : (w == v) = false := beq_eq_false_iff_ne.mpr hw
      rw [hne, hne', ih]
      simp only [Bool.false_eq_true, if_false, Option.map_map, Function.comp_def, Nat.add_assoc,
        Nat.add_comm 1]

theorem lookup_ofPool (p : Pool) (v : Text) : (ofPool p).symbols.lookup v = p.symbolFor? v := by
  rw [ofPool, lookup_zipIdx, Pool.symbolFor?]
  simp only [Nat.zero_add]

/-- Both ways of keeping a pool answer a string alike, and are in step after it. -/
theorem intern_ofPool (p : Pool) (v : Text) :
    (ofPool p).intern v = (p.intern v).map fun (s, q) => (s, ofPool q) := by
  rw [intern, Pool.intern, lookup_ofPool]
  rcases p.symbolFor? v with _ | s
  · rw [Constant.encode]
    rcases Utf8.surrogateRun? v with _ | run
    · -- A new string goes to the end of both tables.
      simp only [bind, Except.bind, Except.map, pure, Except.pure, ofPool, Pool.declarations,
        List.zipIdx_append, List.map_append, List.zipIdx_singleton, List.map_cons, List.map_nil,
        Nat.zero_add, Pool.declaration, Pool.size, List.length_map, List.length_zipIdx]
    · rfl
  · rfl

theorem internAll_ofPool (p : Pool) (values : List Text) :
    (ofPool p).internAll values = (p.internAll values).map fun (ss, q) => (ss, ofPool q) := by
  induction values generalizing p with
  | nil => rfl
  | cons v rest ih =>
    rw [internAll, Pool.internAll, intern_ofPool]
    rcases p.intern v with run | ⟨s, q⟩
    · rfl
    · simp only [Except.map, bind, Except.bind, ih]
      rcases q.internAll rest with run | ⟨ss, r⟩ <;> rfl

end Tables

/-! ### Any strings -/

namespace Pool

variable {p : Pool} {v : Text} {values more : List Text}

/-- What a pool knows of the strings that have been handed in, each of which counts once and at the
place where it came first. -/
structure Knows (p : Pool) (values : List Text) : Prop where
  size_eq : p.size = values.eraseDups.length
  length_declarations : p.declarations.length = values.eraseDups.length
  symbolFor : ∀ k v, values.eraseDups[k]? = some v → p.symbolFor? v = some (symbol k)
  /-- A string that is handed in once more gets the symbol it has, and the pool stays the same. -/
  intern : ∀ k v, values.eraseDups[k]? = some v → p.intern v = .ok (symbol k, p)
  declaration : ∀ k v, values.eraseDups[k]? = some v → ∃ body size,
    Constant.encode v = .ok (body, size) ∧ p.declarations[k]? = some (symbol k
      ++ " = private unnamed_addr constant [" ++ Text.ofNat size ++ " x i8] c\"" ++ body
      ++ "\", align 1")
  nodup_declarations : p.declarations.Nodup
  symbolFor_injective : ∀ u ∈ values, ∀ v ∈ values, p.symbolFor? u = p.symbolFor? v → u = v
  contains : ∀ v, p.contains v = true ↔ v ∈ values
  isSome_symbolFor : ∀ v, (p.symbolFor? v).isSome = true ↔ v ∈ values

theorem ofValues_knows (hplain : ∀ v ∈ values, v.Plain) : (ofValues values).Knows values := by
  have hlength : (ofValues values).declarations.length = values.eraseDups.length := by
    rw [declarations, List.length_map, List.length_zipIdx, ofValues]
  have hplace : ∀ k v, values.eraseDups[k]? = some v →
      v ∈ values ∧ values.eraseDups.idxOf v = k := by
    intro k v hk
    obtain ⟨hlt, rfl⟩ := List.getElem?_eq_some_iff.mp hk
    exact ⟨List.mem_eraseDups.mp (List.getElem_mem hlt),
      (nodup_eraseDups values).idxOf_getElem k hlt⟩
  have hsymbol : ∀ v ∈ values,
      (ofValues values).symbolFor? v = some (symbol (values.eraseDups.idxOf v)) := by
    intro v hv
    exact symbolFor?_of_mem (mem_ofValues.mpr hv)
  refine ⟨rfl, hlength, ?_, ?_, ?_, nodup_declarations _, ?_, ?_, ?_⟩
  · intro k v hk
    obtain ⟨hv, rfl⟩ := hplace k v hk
    exact hsymbol v hv
  · intro k v hk
    obtain ⟨hv, rfl⟩ := hplace k v hk
    rw [Pool.intern, hsymbol v hv]
  · intro k v hk
    have hnone := Utf8.surrogateRun?_eq_none.mpr (hplain v (hplace k v hk).1)
    refine ⟨_, _, by rw [Constant.encode, hnone], ?_⟩
    rw [getElem?_declarations, ofValues, hk]
    rfl
  · intro u hu v hv hsame
    rw [hsymbol u hu, hsymbol v hv] at hsame
    have hindex := symbol_injective (Option.some.inj hsame)
    exact (List.idxOf_inj (List.mem_eraseDups.mpr hu)).mp hindex
  · intro v
    rw [Pool.contains, List.contains_iff_mem]
    exact mem_ofValues
  · intro v
    by_cases hv : v ∈ values
    · simp only [hsymbol v hv, Option.isSome_some, hv]
    · rw [symbolFor?_of_not_mem fun h => hv (mem_ofValues.mp h)]
      simp only [Option.isSome_none, hv, Bool.false_eq_true]

/-- **A string has one symbol, and it is that of the place where it came first.**  Strings without
surrogates are all taken by an empty pool.  Every call returns the symbol of its string, which is
the same at the first call and at any later one, and after them the pool knows exactly these
strings.  A pool with two tables answers alike.  Strings that are handed in later neither move a
declaration nor change a symbol. -/
theorem internAll_firsts (hplain : ∀ v ∈ values, v.Plain) :
    ∃ p, empty.internAll values
        = .ok (values.map fun v => symbol (values.eraseDups.idxOf v), p) ∧
      Tables.empty.internAll values
        = .ok (values.map fun v => symbol (values.eraseDups.idxOf v), Tables.ofPool p) ∧
      symbol 0 = "@.str" ∧ (∀ k, 0 < k → symbol k = "@.str." ++ Text.ofNat k) ∧
      p.Knows values ∧
      ∀ more : List Text, (∀ v ∈ more, v.Plain) →
        ∃ symbols q, p.internAll more = .ok (symbols, q) ∧ q.Knows (values ++ more) ∧
          p.declarations <+: q.declarations ∧
          ∀ v ∈ values, q.symbolFor? v = p.symbolFor? v := by
  have hrun : (ofValues []).internAll values = .ok (values.map fun v =>
      symbol (([] ++ values).eraseDups.idxOf v), ofValues ([] ++ values)) :=
    internAll_ofValues hplain
  rw [List.nil_append] at hrun
  refine ⟨ofValues values, hrun, ?_, rfl, ?_, ofValues_knows hplain, ?_⟩
  · exact (Tables.internAll_ofPool empty values).trans (congrArg _ hrun)
  · intro k hk
    obtain ⟨n, rfl⟩ := Nat.exists_eq_add_of_lt hk
    rw [Nat.zero_add]
    rfl
  · intro more hmore
    have hall : ∀ v ∈ values ++ more, v.Plain := List.forall_mem_append.mpr ⟨hplain, hmore⟩
    refine ⟨_, _, internAll_ofValues hmore, ofValues_knows hall, ?_, ?_⟩
    · -- The declarations are numbered from the front, so more strings only add to them.
      obtain ⟨rest, hrest⟩ := eraseDups_prefix values more
      rw [declarations, declarations, ofValues, ofValues, ← hrest, List.zipIdx_append,
        List.map_append]
      exact List.prefix_append _ _
    · intro v hv
      have hlater : v ∈ values ++ more := List.mem_append_left more hv
      rw [symbolFor?_of_mem (mem_ofValues.mpr hv), symbolFor?_of_mem (mem_ofValues.mpr hlater),
        ofValues, ofValues, idxOf_eraseDups_append hv]

/-- Strings of which one comes twice, the empty one among them. -/
def someTwice : List Text := ["é\"", [], "é\""]

theorem internAll_firsts_twice :
    (∀ v ∈ someTwice, v.Plain) ∧
    ∃ p, empty.internAll someTwice = .ok (["@.str", "@.str.1", "@.str"], p) ∧
      p.Knows someTwice := by
  have hplain : ∀ v ∈ someTwice, v.Plain := by
    have hquoted : Text.Plain "é\"" := Text.plain_of_all (by decide)
    exact List.forall_mem_cons.mpr ⟨hquoted, List.forall_mem_cons.mpr
      ⟨nofun, List.forall_mem_singleton.mpr hquoted⟩⟩
  have hsymbols : (someTwice.map fun v => symbol (someTwice.eraseDups.idxOf v))
      = ["@.str", "@.str.1", "@.str"] := by decide +kernel
  obtain ⟨p, hrun, -, -, -, hknows, -⟩ := internAll_firsts hplain
  rw [hsymbols] at hrun
  exact ⟨hplain, p, hrun, hknows⟩

end Pool

end LiteralSplice
