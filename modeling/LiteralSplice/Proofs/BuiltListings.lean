/-
Programs built by calls and handed off as listings.

A builder can hand over what it holds within the process, or write it to the two files of a
listing, to be read by another process.

* **`Pool.isRecord_declaration`**, **`Pool.nonblank_declaration`**: whatever the string, its
  declaration is one line that a listing keeps;
* **`Builder.unit_listed`**: the listing of a builder is read as the hand-off of the builder.

Design notes: the strings of a pool are not restricted in any way but that they have bytes.  A
declaration is printable ASCII, so no character of a string can end the line or be taken for the
end of it; and it begins with the sign of its symbol, so it is never left out as blank.
-/
import LiteralSplice.Proofs.Builders
import LiteralSplice.Proofs.FrontEnds

namespace LiteralSplice

theorem CodePoint.ne_feed_of_printable {c : CodePoint} (h : c.isPrintableAscii = true) :
    c ≠ CodePoint.ofChar '\n' := by
  rintro rfl
  exact absurd h (by decide)

theorem CodePoint.not_surrogate_of_printable {c : CodePoint} (h : c.isPrintableAscii = true) :
    c.isSurrogate = false := by
  simp only [isPrintableAscii, Bool.and_eq_true, decide_eq_true_eq] at h
  rw [isSurrogate, Bool.and_eq_false_iff, decide_eq_false_iff_not]
  exact Or.inl (by omega)

namespace Pool

/-! ### Declarations as records -/

theorem getLast?_declaration (n : Nat) (t : Text) :
    (declaration n t).getLast? = some (CodePoint.ofChar '1') := by
  rw [declaration, List.getLast?_append]
  rfl

/-- A declaration is one line, whatever line ends there are in its string. -/
theorem isRecord_declaration (n : Nat) (t : Text) : Records.IsRecord (declaration n t) := by
  refine ⟨fun hmem => ?_, ?_⟩
  · exact CodePoint.ne_feed_of_printable (printable_declaration n t _ hmem) rfl
  · rw [getLast?_declaration]
    decide

theorem head?_symbol (n : Nat) : (symbol n).head? = some (CodePoint.ofChar '@') := by
  rcases n with _ | n <;> rfl

/-- A declaration is not blank, even if its string is. -/
theorem nonblank_declaration (n : Nat) (t : Text) : ∃ c ∈ declaration n t, c.isBlank = false := by
  refine ⟨CodePoint.ofChar '@', List.mem_of_mem_head? ?_, by decide⟩
  rw [declaration]
  simp only [List.append_assoc, List.head?_append, head?_symbol]
  rfl

theorem exists_of_mem_declarations {p : Pool} {line : Text} (h : line ∈ p.declarations) :
    ∃ n t, line = declaration n t := by
  rw [declarations] at h
  obtain ⟨⟨t, n⟩, -, rfl⟩ := List.mem_map.mp h
  exact ⟨n, t, rfl⟩

theorem plain_of_mem_declarations {p : Pool} {line : Text} (h : line ∈ p.declarations) :
    ∀ c ∈ line, c.isSurrogate = false := by
  obtain ⟨n, t, rfl⟩ := exists_of_mem_declarations h
  exact fun c hc => CodePoint.not_surrogate_of_printable (printable_declaration n t c hc)

end Pool

namespace Records

theorem Padded.refl (lines : List Text) : Padded lines lines := by
  induction lines with
  | nil => exact .nil
  | cons line rest ih => exact .line line ih

/-- Lines without surrogates can be written as a file. -/
theorem encode_listed {lines : List Text} (h : ∀ line ∈ lines, ∀ c ∈ line, c.isSurrogate = false) :
    Utf8.encode (listed lines) = .ok ((listed lines).flatMap Utf8.bytesOf) := by
  refine Utf8.encode_ok.mpr ⟨fun c hc => ?_, rfl⟩
  obtain ⟨line, hline, hc⟩ := List.mem_flatMap.mp hc
  rcases List.mem_append.mp hc with hc | hc
  · exact h line hline c hc
  · rw [List.mem_singleton.mp hc]
    rfl

end Records

/-! ### The listing of a builder -/

namespace Builder

variable {header : List Text} {calls : List Call} {t : FileTree} {path : Path}

/-- A tree has the two files of a listing with the lines of a hand-off. -/
def Delivered (t : FileTree) (path : Path) (h : Handoff Text) : Prop :=
  t.Stores (FrontEnd.companion path ".text") (Records.listed h.instructions) ∧
    t.Stores (FrontEnd.companion path ".strings") (Records.listed h.literals)

/-- The listing of a stream and a pool is read as their lines. -/
theorem translate_delivered [Stack] {h : Handoff Text} {pool : Pool}
    (hliterals : h.literals = pool.declarations)
    (hrecords : ∀ line ∈ h.instructions, Records.IsRecord line) (hdelivered : Delivered t path h) :
    ∃ name, (FrontEnd.listing path).translate t = .ok ⟨h.instructions, h.literals, name⟩ := by
  obtain ⟨htext, hstrings⟩ := hdelivered
  have hpool : ∀ line ∈ h.literals, Records.IsRecord line ∧ ∃ c ∈ line, c.isBlank = false := by
    intro line hline
    rw [hliterals] at hline
    obtain ⟨n, v, rfl⟩ := Pool.exists_of_mem_declarations hline
    exact ⟨Pool.isRecord_declaration n v, Pool.nonblank_declaration n v⟩
  have hyields := FrontEnd.translate_listing hrecords (fun line hline => (hpool line hline).1)
    (fun line hline => (hpool line hline).2) (Records.Padded.refl h.literals) htext hstrings
  exact hyields.1 (hliterals ▸ pool.nodup_declarations)

/-- **What a builder hands over is what its listing is read as.**  Calls without surrogates, on a
header of the right length, with some line appended, have a hand-off and a program.  If the lines
of header and body are records, the lines of the hand-off can be written to the two files of a
listing, whatever strings have been interned, and any listing with these two files gives the same
instructions, the same literals and the same text. -/
theorem unit_listed [Stack] (source : Text) (hheader : header.length = spliceIndex)
    (hcalls : ∀ call ∈ calls, call.Plain) (hsome : appended calls ≠ [])
    (hrecords : ∀ line ∈ header ++ appended calls, Records.IsRecord line)
    (hplain : ∀ line ∈ header ++ appended calls, ∀ c ∈ line, c.isSurrogate = false) :
    ∃ stream b h program, Stream.ofHeader (header.map .string) = .ok stream ∧
      (start stream).run calls = .ok b ∧
      b.stream.build = .ok (h.instructions.map .string) ∧ h.literals = b.pool.declarations ∧
      b.unit source = .ok h ∧ h.assemble = .ok program ∧
      (∃ bytes, Utf8.encode (Records.listed h.instructions) = .ok bytes) ∧
      (∃ bytes, Utf8.encode (Records.listed h.literals) = .ok bytes) ∧
      ∀ t path, Delivered t path h → ∃ h', (FrontEnd.listing path).translate t = .ok h' ∧
        h'.instructions = h.instructions ∧ h'.literals = h.literals ∧
        h'.assemble.map Program.text = .ok program.text := by
  have hlength : (header.map Json.string).length = spliceIndex := by rwa [List.length_map]
  have hstream : Stream.ofHeader (header.map Json.string)
      = .ok ⟨header.map .string, [], hlength⟩ := by
    rw [Stream.ofHeader, dif_pos hlength]
  obtain ⟨b, hrun, hbuilt⟩ := run_built (start_built hstream) hcalls
  rw [List.nil_append] at hbuilt
  refine ⟨_, b, _, _, hstream, hrun, build_of_ne_nil hbuilt hsome, rfl,
    unit_of_ne_nil source hbuilt hsome, Handoff.assemble_header hheader hsome,
    ⟨_, Records.encode_listed hplain⟩,
    ⟨_, Records.encode_listed fun _ => Pool.plain_of_mem_declarations⟩, fun t path hdelivered => ?_⟩
  obtain ⟨name, htranslate⟩ := translate_delivered rfl hrecords hdelivered
  refine ⟨_, htranslate, rfl, rfl, ?_⟩
  simp only [Handoff.assemble_header hheader hsome]
  rfl

/-- Calls that hand in line ends, blanks, and characters of every kind. -/
def untidyCalls : List Call :=
  [.intern "\r\n", .emit ["  call", ""], .intern " \t", .intern "\u0000é\"\\", .intern "\r\n", .blank]

/-- The instructions that these calls leave in a builder. -/
def untidyLines : List Text := Stream.defaultHeader ++ [("  call" : Text), [], []]

/-- The pool that they leave in it. -/
def untidyPool : Pool := ⟨["\r\n", " \t", "\u0000é\"\\"]⟩

/-- A directory with the two files of a listing of them. -/
def untidyTree : FileTree :=
  let file (lines : List Text) : Entry := .file ((Records.listed lines).flatMap Utf8.bytesOf)
  ⟨[(.ofNames ["w"], .directory), (.ofNames ["w", "p.text"], file untidyLines),
    (.ofNames ["w", "p.strings"], file untidyPool.declarations)], ["w"]⟩

theorem unit_listed_untidy :
    Stream.defaultHeader.length = spliceIndex ∧ (∀ call ∈ untidyCalls, call.Plain) ∧
    appended untidyCalls ≠ [] ∧
    (∀ line ∈ Stream.defaultHeader ++ appended untidyCalls, Records.IsRecord line) ∧
    (∀ line ∈ Stream.defaultHeader ++ appended untidyCalls, ∀ c ∈ line, c.isSurrogate = false) ∧
    ∃ stream b h h', Stream.ofHeader (Stream.defaultHeader.map .string) = .ok stream ∧
      (start stream).run untidyCalls = .ok b ∧ b.unit unnamedSource = .ok h ∧
      Delivered untidyTree (Path.ofText "p") h ∧
      (FrontEnd.listing (Path.ofText "p")).translate untidyTree = .ok h' ∧
      h'.instructions = h.instructions ∧ h'.literals = h.literals := by
  have hheader : Stream.defaultHeader.length = spliceIndex := rfl
  have hplain : ∀ call ∈ untidyCalls, call.Plain := by
    have hruns : ∀ call ∈ untidyCalls, ∀ t ∈ call.value?, Utf8.surrogateRun? t = none := by decide
    exact fun call hcall t ht => Utf8.surrogateRun?_eq_none.mp (hruns call hcall t ht)
  have hsome : appended untidyCalls ≠ [] := by decide
  have hrecords : ∀ line ∈ Stream.defaultHeader ++ appended untidyCalls, Records.IsRecord line := by
    have hlines : ∀ line ∈ Stream.defaultHeader ++ appended untidyCalls,
        CodePoint.ofChar '\n' ∉ line ∧ line.getLast? ≠ some (CodePoint.ofChar '\r') := by decide
    exact fun line hline => ⟨(hlines line hline).1, (hlines line hline).2⟩
  have hencodable : ∀ line ∈ Stream.defaultHeader ++ appended untidyCalls,
      ∀ c ∈ line, c.isSurrogate = false := by
    have hruns : ∀ line ∈ Stream.defaultHeader ++ appended untidyCalls,
        Utf8.surrogateRun? line = none := by decide
    exact fun line hline => Utf8.surrogateRun?_eq_none.mp (hruns line hline)
  obtain ⟨stream, b, h, program, hstream, hrun, hbuild, hpool, hunit, -, -, -, hlisted⟩ :=
    unit_listed unnamedSource hheader hplain hsome hrecords hencodable
  -- The calls are gone through, so the lines of the hand-off are those in the files.
  have hrun' := hrun
  cases hstream
  cases hrun'
  have hlines : h.instructions = untidyLines :=
    List.map_injective_iff.mpr (fun _ _ => Json.string.inj) (Except.ok.inj (hbuild.symm.trans rfl))
  have hpool : h.literals = untidyPool.declarations := hpool
  have hdelivered : Delivered untidyTree (Path.ofText "p") h := by
    rw [Delivered, hlines, hpool]
    exact ⟨⟨_, Records.encode_listed hencodable, rfl⟩,
      ⟨_, Records.encode_listed fun _ => Pool.plain_of_mem_declarations, rfl⟩⟩
  obtain ⟨h', htranslate, hinstructions, hliterals, -⟩ := hlisted _ _ hdelivered
  exact ⟨hheader, hplain, hsome, hrecords, hencodable, _, _, h, h', rfl, hrun, hunit, hdelivered,
    htranslate, hinstructions, hliterals⟩

end Builder

end LiteralSplice
