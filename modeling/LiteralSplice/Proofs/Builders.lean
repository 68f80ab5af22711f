/-
Programs built by calls.

A front end that runs in the same process fills a stream and a pool side by side, and hands both
over when it is done.

* **`Builder.step`**, **`Builder.run`**: what one call and what a list of calls does;
* **`Builder.Built`**: what the calls so far have left in the builder;
* **`Builder.step_built`**, **`Builder.run_built`**: a call and a list of calls keep it so;
* **`Builder.unit`**: the checked hand-off of stream and pool;
* **`Builder.run_resolves`**: in the program of that hand-off, every symbol that a call has
  returned is declared once, as a constant that holds the string of the call.

Design notes: a builder remembers which symbol it has returned for which string.  The pool alone
could not say so, since a string that is handed in again gets the symbol it has.
-/
import LiteralSplice.Proofs.Handoffs
import LiteralSplice.Proofs.Literals
import LiteralSplice.Stream

namespace LiteralSplice

namespace Pool

/-! ### Strings that are interned -/

/-- A string without surrogates is interned: it stands at the index of its symbol, and the strings
before it stay where they are. -/
theorem intern_ok (p : Pool) {t : Text} (ht : ∀ c ∈ t, c.isSurrogate = false) :
    ∃ q k, p.intern t = .ok (symbol k, q) ∧ q.strings[k]? = some t ∧ p.strings <+: q.strings ∧
      ∀ x ∈ q.strings, x ∈ p.strings ∨ x = t := by
  rw [intern, symbolFor?]
  rcases hk : p.strings.idxOf? t with _ | k
  · -- The string is new and goes behind the others.
    refine ⟨⟨p.strings ++ [t]⟩, p.size, ?_, ?_, List.prefix_append _ _, fun x hx => ?_⟩
    · rw [Option.map_none, Utf8.surrogateRun?_eq_none.mpr ht]
    · exact List.getElem?_concat_length
    · simpa using hx
  · -- The string is there already, at the index of the symbol it has.
    refine ⟨p, k, rfl, ?_, List.prefix_rfl, fun x hx => Or.inl hx⟩
    obtain ⟨hlt, heq, -⟩ := List.idxOf?_eq_some_iff.mp hk
    rw [List.getElem?_eq_getElem hlt]
    exact congrArg some heq

/-- A block of declarations has one line that declares a symbol, and that line is a constant of
the bytes of a string and a zero byte, with their number. -/
def Resolves (block : List Text) (value symbol : Text) : Prop :=
  ∃ (k : Nat) (line : Text), block[k]? = some line ∧
    (∀ (m : Nat) (other : Text), block[m]? = some other → (Declares other symbol ↔ m = k)) ∧
    ∃ bytes body, Utf8.encode value = .ok bytes ∧
      Constant.unescape? body = some (bytes ++ [0]) ∧
      line = symbol ++ " = private unnamed_addr constant [" ++ Text.ofNat (bytes ++ [0]).length
        ++ " x i8] c\"" ++ body ++ "\", align 1"

theorem resolves {p : Pool} {k : Nat} {v : Text} (hk : p.strings[k]? = some v)
    (hplain : ∀ c ∈ v, c.isSurrogate = false) : Resolves p.declarations v (symbol k) := by
  refine ⟨k, declaration k v, ?_, ?_, v.flatMap Utf8.bytesOf,
    Constant.body (Constant.bytesOf v), Utf8.encode_ok.mpr ⟨hplain, rfl⟩,
    Constant.unescape?_body _, rfl⟩
  · rw [getElem?_declarations, hk, Option.map_some]
  · intro m other hm
    rw [getElem?_declarations] at hm
    rcases ht : p.strings[m]? with _ | t
    · rw [ht] at hm
      cases hm
    · rw [ht] at hm
      cases hm
      exact declares_iff

end Pool

/-! ### Builders and calls -/

/-- A stream and a pool, with the strings handed in so far and the symbols returned for them. -/
structure Builder where
  stream : Stream Json
  pool : Pool
  given : List (Text × Text)

/-- Why a builder has no hand-off. -/
inductive UnitFault where
  | tooShort (fault : TooShort)
  | misshapen (fault : ShapeFault)
  deriving DecidableEq, Repr

namespace Builder

/-- A call of a front end. -/
inductive Call where
  | intern (value : Text)
  | emit (lines : List Text)
  | extend (lines : List Text)
  | blank
  deriving DecidableEq, Repr

namespace Call

/-- The lines that a call appends. -/
def lines : Call → List Text
  | .intern _ => []
  | .emit lines => lines
  | .extend lines => lines
  | .blank => [[]]

/-- The string that a call hands in. -/
def value? : Call → Option Text
  | .intern value => some value
  | _ => none

/-- A call that hands in no surrogates. -/
def Plain (call : Call) : Prop := ∀ t ∈ call.value?, ∀ c ∈ t, c.isSurrogate = false

end Call

/-- All lines that calls append, in order. -/
def appended (calls : List Call) : List Text := calls.flatMap Call.lines

/-- All strings that calls hand in, in order. -/
def interned (calls : List Call) : List Text := calls.filterMap Call.value?

/-- A builder before the first call. -/
def start (stream : Stream Json) : Builder := ⟨stream, Pool.empty, []⟩

def step (b : Builder) : Call → Except Utf8.SurrogateRun Builder
  | .intern value => do
    let (symbol, pool) ← b.pool.intern value
    return ⟨b.stream, pool, b.given ++ [(value, symbol)]⟩
  | .emit lines => .ok { b with stream := b.stream.append (lines.map .string) }
  | .extend lines => .ok { b with stream := b.stream.append (lines.map .string) }
  | .blank => .ok { b with stream := b.stream.blank }

def run (b : Builder) (calls : List Call) : Except Utf8.SurrogateRun Builder := calls.foldlM step b

/-- The checked hand-off of stream and pool. -/
def unit (b : Builder) (source : Text) : Except UnitFault (Handoff Text) := do
  let h ← (b.stream.handoff b.pool .string source).mapError .tooShort
  h.check.mapError .misshapen

/-! ### What calls leave behind -/

/-- What calls leave in a builder that had only a header before them. -/
structure Built (header : List Text) (calls : List Call) (b : Builder) : Prop where
  header_eq : b.stream.header = header.map .string
  body_eq : b.stream.body = (appended calls).map .string
  given_eq : b.given.map Prod.fst = interned calls
  symbol_of_given : ∀ v s, (v, s) ∈ b.given → ∃ k, b.pool.strings[k]? = some v ∧ s = Pool.symbol k
  plain : ∀ t ∈ b.pool.strings, ∀ c ∈ t, c.isSurrogate = false

variable {header : List Text} {done calls : List Call} {b : Builder}

theorem start_built {stream : Stream Json}
    (hstream : Stream.ofHeader (header.map .string) = .ok stream) :
    Built header [] (start stream) := by
  rw [Stream.ofHeader] at hstream
  split at hstream
  · cases hstream
    exact ⟨rfl, rfl, rfl, nofun, nofun⟩
  · cases hstream

/-- A call without surrogates is answered, and the builder has what it was called with. -/
theorem step_built {call : Call} (h : Built header done b) (hcall : call.Plain) :
    ∃ b', b.step call = .ok b' ∧ Built header (done ++ [call]) b' := by
  have happended : appended (done ++ [call]) = appended done ++ call.lines := by
    simp [appended]
  have hinterned : interned (done ++ [call]) = interned done ++ call.value?.toList := by
    rcases hvalue : call.value? with _ | t <;> simp [interned, hvalue]
  -- A call that only appends lines leaves the pool and the symbols alone.
  have hlines : call.value? = none → Built header (done ++ [call])
      { b with stream := b.stream.append (call.lines.map .string) } := by
    intro hnone
    refine ⟨h.header_eq, ?_, ?_, h.symbol_of_given, h.plain⟩
    · rw [happended, List.map_append, ← h.body_eq]
      rfl
    · rw [hinterned, hnone, Option.toList_none, List.append_nil]
      exact h.given_eq
  cases call with
  | intern value =>
    obtain ⟨pool, k, hintern, hk, hprefix, hmem⟩ := b.pool.intern_ok (hcall value rfl)
    refine ⟨⟨b.stream, pool, b.given ++ [(value, Pool.symbol k)]⟩, ?_, ?_⟩
    · rw [step, hintern]
      rfl
    refine ⟨h.header_eq, ?_, ?_, ?_, ?_⟩
    · rw [happended, Call.lines, List.append_nil]
      exact h.body_eq
    · rw [hinterned, List.map_append, h.given_eq]
      rfl
    · intro v s hgiven
      rcases List.mem_append.mp hgiven with hgiven | hgiven
      · -- A symbol returned before stays that of its string, which has not been moved.
        obtain ⟨m, hm, rfl⟩ := h.symbol_of_given v s hgiven
        obtain ⟨hlt, -⟩ := List.getElem?_eq_some_iff.mp hm
        obtain ⟨r, hr⟩ := hprefix
        exact ⟨m, by rw [← hr, List.getElem?_append_left hlt, hm], rfl⟩
      · cases List.mem_singleton.mp hgiven
        exact ⟨k, hk, rfl⟩
    · intro t ht
      rcases hmem t ht with ht | rfl
      · exact h.plain t ht
      · exact hcall t rfl
  | emit lines => exact ⟨_, rfl, hlines rfl⟩
  | extend lines => exact ⟨_, rfl, hlines rfl⟩
  | blank => exact ⟨_, rfl, hlines rfl⟩

theorem run_built (h : Built header done b) (hcalls : ∀ call ∈ calls, call.Plain) :
    ∃ b', b.run calls = .ok b' ∧ Built header (done ++ calls) b' := by
  induction calls generalizing done b with
  | nil => exact ⟨b, rfl, by rwa [List.append_nil]⟩
  | cons call rest ih =>
    obtain ⟨b', hstep, hbuilt⟩ := step_built h (hcalls call List.mem_cons_self)
    obtain ⟨b'', hrun, hbuilt'⟩ := ih hbuilt fun c hc => hcalls c (List.mem_cons_of_mem _ hc)
    refine ⟨b'', ?_, by rwa [List.append_assoc] at hbuilt'⟩
    rw [run, List.foldlM_cons, hstep]
    exact hrun

/-! ### The hand-off -/

/-- The hand-off of a builder to which no line has been appended is refused as too short. -/
theorem unit_of_nil (source : Text) (h : Built header done b) (hnone : appended done = []) :
    b.unit source = .error (.tooShort ⟨spliceIndex⟩) := by
  have hbody : b.stream.body = [] := by rw [h.body_eq, hnone, List.map_nil]
  rw [unit, Stream.handoff, Stream.build, hbody, b.stream.header_length]
  rfl

/-- A builder to which some line has been appended gives its header and these lines. -/
theorem build_of_ne_nil (h : Built header done b) (hsome : appended done ≠ []) :
    b.stream.build = .ok ((header ++ appended done).map .string) := by
  have hempty : ¬ b.stream.body.isEmpty = true := by
    rw [h.body_eq, List.isEmpty_iff, List.map_eq_nil_iff]
    exact hsome
  rw [Stream.build, if_neg hempty, h.header_eq, h.body_eq, List.map_append]

/-- Any other hand-off is accepted: a pool never declares anything twice. -/
theorem unit_of_ne_nil (source : Text) (h : Built header done b) (hsome : appended done ≠ []) :
    b.unit source = .ok ⟨header ++ appended done, b.pool.declarations, source⟩ := by
  have hhandoff : b.stream.handoff b.pool .string source
      = .ok ⟨(header ++ appended done).map .string, b.pool.declarations.map .string, source⟩ := by
    rw [Stream.handoff, build_of_ne_nil h hsome]
    rfl
  have hcheck := Handoff.check_map_string (header ++ appended done) b.pool.declarations source
  rw [Handoff.checkRepeats_of_nodup b.pool.nodup_declarations] at hcheck
  rw [unit, hhandoff]
  exact congrArg (Except.mapError UnitFault.misshapen) hcheck

/-- **Every symbol that has been returned resolves in the program.**  Calls without surrogates,
on a header of the right length, are all answered; the hand-off is never refused for its shape,
and it is refused as too short exactly if no line has been appended. -/
theorem run_resolves {header : List Text} {calls : List Call} (source : Text)
    (hheader : header.length = spliceIndex) (hcalls : ∀ call ∈ calls, call.Plain) :
    ∃ stream b, Stream.ofHeader (header.map .string) = .ok stream ∧
      (start stream).run calls = .ok b ∧ b.given.map Prod.fst = interned calls ∧
      (∀ fault, b.unit source ≠ .error (.misshapen fault)) ∧
      (∀ fault, b.unit source = .error (.tooShort fault) ↔
        appended calls = [] ∧ fault = ⟨2⟩ ∧ leastInstructions = 3) ∧
      (appended calls ≠ [] → ∃ h program, b.unit source = .ok h ∧ h.assemble = .ok program ∧
        program.lines = header ++ b.pool.declarations ++ [[]] ++ appended calls ∧
        program.literalBlock = b.pool.declarations ∧
        ∀ v s, (v, s) ∈ b.given → Pool.Resolves program.literalBlock v s) := by
  obtain ⟨stream, hstream⟩ : ∃ stream, Stream.ofHeader (header.map Json.string) = .ok stream := by
    have hlength : (header.map Json.string).length = spliceIndex := by rwa [List.length_map]
    exact ⟨_, by rw [Stream.ofHeader, dif_pos hlength]⟩
  obtain ⟨b, hrun, hbuilt⟩ := run_built (start_built hstream) hcalls
  rw [List.nil_append] at hbuilt
  refine ⟨stream, b, hstream, hrun, hbuilt.given_eq, ?_, ?_, ?_⟩
  · intro fault hfault
    by_cases hnone : appended calls = []
    · rw [unit_of_nil source hbuilt hnone] at hfault
      cases hfault
    · rw [unit_of_ne_nil source hbuilt hnone] at hfault
      cases hfault
  · intro fault
    by_cases hnone : appended calls = []
    · rw [unit_of_nil source hbuilt hnone]
      constructor
      · rintro hfault
        cases hfault
        exact ⟨hnone, rfl, rfl⟩
      · rintro ⟨-, rfl, -⟩
        rfl
    · rw [unit_of_ne_nil source hbuilt hnone]
      exact ⟨nofun, fun h => absurd h.1 hnone⟩
  · intro hsome
    have hblock : Program.literalBlock ⟨header ++ b.pool.declarations ++ [[]] ++ appended calls,
        b.pool.declarations.length, source⟩ = b.pool.declarations := by
      rw [List.append_assoc _ _ (appended calls)]
      exact Handoff.literalBlock_of_lines hheader
    refine ⟨_, _, unit_of_ne_nil source hbuilt hsome, Handoff.assemble_header hheader hsome, rfl,
      hblock, fun v s hgiven => ?_⟩
    obtain ⟨k, hk, rfl⟩ := hbuilt.symbol_of_given v s hgiven
    rw [hblock]
    exact Pool.resolves hk (hbuilt.plain v (List.mem_of_getElem? hk))

/-- Calls that hand in a string twice, with characters of every kind, and append lines between. -/
def quotedCalls : List Call :=
  [.intern "a\"\\é", .emit [], .extend ["@.str = x", "ret"], .intern "", .intern "a\"\\é", .blank]

theorem run_resolves_quoted :
    Stream.defaultHeader.length = spliceIndex ∧ (∀ call ∈ quotedCalls, call.Plain) ∧
    ∃ stream b h program, Stream.ofHeader (Stream.defaultHeader.map .string) = .ok stream ∧
      (start stream).run quotedCalls = .ok b ∧ b.given.map Prod.fst = interned quotedCalls ∧
      b.unit unnamedSource = .ok h ∧ h.assemble = .ok program ∧
      ∀ v s, (v, s) ∈ b.given → Pool.Resolves program.literalBlock v s := by
  have hheader : Stream.defaultHeader.length = spliceIndex := rfl
  have hplain : ∀ call ∈ quotedCalls, call.Plain := by
    have hruns : ∀ call ∈ quotedCalls, ∀ t ∈ call.value?, Utf8.surrogateRun? t = none := by decide
    exact fun call hcall t ht => Utf8.surrogateRun?_eq_none.mp (hruns call hcall t ht)
  have hsome : appended quotedCalls ≠ [] := by decide
  obtain ⟨stream, b, hstream, hrun, hgiven, -, -, hprogram⟩ :=
    run_resolves unnamedSource hheader hplain
  obtain ⟨h, program, hunit, hassemble, -, -, hresolves⟩ := hprogram hsome
  exact ⟨hheader, hplain, stream, b, h, program, hstream, hrun, hgiven, hunit, hassemble,
    hresolves⟩

end Builder

end LiteralSplice
