/-
The records of a listing.

* **`Records.ofText_ended`**: lines that are written one after the other, each with an end of its
  own, are read as those lines, a return before a line feed alone apart;
* **`Records.ofText_listed`**: so they are where every end is a line feed;
* **`Records.Padded`**, **`Records.nonblank_padded`**: blank lines put in anywhere are left out.
-/
import LiteralSplice.Listing.Records
import LiteralSplice.Proofs.Texts

namespace LiteralSplice

namespace Records

/-- The text of a file with the given lines, each ended by a line feed. -/
def listed (lines : List Text) : Text := lines.flatMap fun line => line ++ [CodePoint.ofChar '\n']

/-- A line that can be told from those around it, and from its end. -/
structure IsRecord (line : Text) : Prop where
  feed : CodePoint.ofChar '\n' ∉ line
  final : line.getLast? ≠ some (CodePoint.ofChar '\r')

/-- A line without a carriage return at its very end, which belongs to the end of the line. -/
def dropReturn (line : Text) : Text :=
  if line.getLast? = some (CodePoint.ofChar '\r') then line.dropLast else line

theorem dropReturn_of_isRecord {line : Text} (h : IsRecord line) : dropReturn line = line :=
  if_neg h.final

theorem dropReturn_cons_cons (c d : CodePoint) (line : Text) :
    dropReturn (c :: d :: line) = c :: dropReturn (d :: line) := by
  rw [dropReturn, dropReturn, List.getLast?_cons_cons, List.dropLast_cons_cons]
  split <;> rfl

theorem mem_of_mem_dropReturn {line : Text} {c : CodePoint} (h : c ∈ dropReturn line) :
    c ∈ line := by
  rw [dropReturn] at h
  split at h
  · exact (List.dropLast_subset line) h
  · exact h

/-! ### Line ends -/

theorem dropReturns_feed (rest : Text) :
    dropReturns (CodePoint.ofChar '\n' :: rest) = CodePoint.ofChar '\n' :: dropReturns rest := by
  rcases rest with _ | ⟨d, rest⟩
  · rfl
  · rw [dropReturns, if_neg]
    exact fun h => absurd h.1 (by decide)

/-- A line gives up a return before its line feed, and nothing else. -/
theorem dropReturns_line {line : Text} (hline : CodePoint.ofChar '\n' ∉ line) (rest : Text) :
    dropReturns (line ++ CodePoint.ofChar '\n' :: rest)
      = dropReturn line ++ CodePoint.ofChar '\n' :: dropReturns rest := by
  induction line with
  | nil => exact dropReturns_feed rest
  | cons c line ih =>
    have hrest := List.not_mem_of_not_mem_cons hline
    rcases line with _ | ⟨d, line⟩
    · rw [List.cons_append, List.nil_append, dropReturns]
      by_cases hc : c = CodePoint.ofChar '\r'
      · subst hc
        rw [if_pos ⟨rfl, rfl⟩]
        rfl
      · have hlast : [c].getLast? ≠ some (CodePoint.ofChar '\r') := fun h => hc (Option.some.inj h)
        rw [if_neg fun h => hc h.1, dropReturns_feed, dropReturn, if_neg hlast]
        rfl
    · have hd : d ≠ CodePoint.ofChar '\n' := (List.ne_of_not_mem_cons hrest).symm
      rw [List.cons_append, List.cons_append, dropReturns, if_neg fun h => hd h.2,
        dropReturn_cons_cons, ← List.cons_append, ih hrest]
      rfl

/-- How a line is ended: by a line feed, or by a return and a line feed. -/
inductive LineEnd where
  | feed
  | returnFeed
  deriving DecidableEq, Repr

def LineEnd.text : LineEnd → Text
  | feed => "\n"
  | returnFeed => "\r\n"

/-- The text of a file with the given lines, each with an end of its own. -/
def ended (lines : List (Text × LineEnd)) : Text := lines.flatMap fun line => line.1 ++ line.2.text

/-- What is read of a line: a return right before a line feed alone is taken for a part of the
end. -/
def readOf : Text × LineEnd → Text
  | (line, .feed) => dropReturn line
  | (line, .returnFeed) => line

theorem mem_of_mem_readOf {line : Text × LineEnd} {c : CodePoint} (h : c ∈ readOf line) :
    c ∈ line.1 := by
  rcases line with ⟨line, _ | _⟩
  · exact mem_of_mem_dropReturn h
  · exact h

theorem dropReturns_end {line : Text × LineEnd} (hline : CodePoint.ofChar '\n' ∉ line.1)
    (rest : Text) : dropReturns (line.1 ++ line.2.text ++ rest)
      = readOf line ++ CodePoint.ofChar '\n' :: dropReturns rest := by
  rcases line with ⟨line, _ | _⟩
  · rw [List.append_assoc]
    exact dropReturns_line hline rest
  · -- The return of the end is the one that is given up, whatever is before it.
    have hreturn : CodePoint.ofChar '\n' ∉ line ++ [CodePoint.ofChar '\r'] := by
      rw [List.mem_append, List.mem_singleton, not_or]
      exact ⟨hline, by decide⟩
    have hdrop : dropReturn (line ++ [CodePoint.ofChar '\r']) = line := by
      rw [dropReturn, List.getLast?_concat, if_pos rfl, List.dropLast_concat]
    have hends : line ++ LineEnd.returnFeed.text ++ rest
        = (line ++ [CodePoint.ofChar '\r']) ++ CodePoint.ofChar '\n' :: rest := by
      rw [List.append_assoc, List.append_assoc]
      rfl
    rw [hends, dropReturns_line hreturn, hdrop]
    rfl

theorem dropReturns_ended {lines : List (Text × LineEnd)}
    (h : ∀ line ∈ lines, CodePoint.ofChar '\n' ∉ line.1) (rest : Text) :
    dropReturns (ended lines ++ rest) = listed (lines.map readOf) ++ dropReturns rest := by
  induction lines with
  | nil => rfl
  | cons line lines ih =>
    obtain ⟨hline, hlines⟩ := List.forall_mem_cons.mp h
    have hrest := ih hlines
    simp only [ended, listed, List.flatMap_cons, List.map_cons, List.append_assoc] at hrest ⊢
    rw [← List.append_assoc, dropReturns_end hline, hrest]
    rfl

theorem dropReturns_of_not_mem {t : Text} (h : CodePoint.ofChar '\n' ∉ t) : dropReturns t = t := by
  induction t with
  | nil => rfl
  | cons c rest ih =>
    have hrest := ih (List.not_mem_of_not_mem_cons h)
    rcases rest with _ | ⟨d, rest⟩
    · rfl
    · have hd : d ≠ CodePoint.ofChar '\n' :=
        (List.ne_of_not_mem_cons (List.not_mem_of_not_mem_cons h)).symm
      rw [dropReturns, if_neg fun hcd => hd hcd.2, hrest]

/-- Lines with a line feed after each, and one that is open, are cut where they were put
together. -/
theorem split_listed {lines : List Text} {last : Text}
    (h : ∀ line ∈ lines, CodePoint.ofChar '\n' ∉ line) (hlast : CodePoint.ofChar '\n' ∉ last) :
    Text.split '\n' (listed lines ++ last) = lines ++ [last] := by
  induction lines with
  | nil => exact Text.split_of_not_mem hlast
  | cons line lines ih =>
    obtain ⟨hline, hlines⟩ := List.forall_mem_cons.mp h
    have hshape : listed (line :: lines) ++ last
        = line ++ CodePoint.ofChar '\n' :: (listed lines ++ last) := by
      simp [listed]
    rw [hshape, Text.split_append_cons, Text.split_of_not_mem hline, ih hlines]
    rfl

theorem ofText_of_ne_nil {t u : Text} (h : dropReturns t = u) (hne : u ≠ []) :
    ofText t = Text.split '\n' (dropFinalFeed u) := by
  rw [ofText, h]
  rcases u with _ | ⟨c, r⟩
  · exact absurd rfl hne
  · rfl

/-- The records of a file are what is read of its lines, and what stands open after them. -/
theorem ofText_ended {lines : List (Text × LineEnd)} {last : Text}
    (h : ∀ line ∈ lines, CodePoint.ofChar '\n' ∉ line.1) (hlast : CodePoint.ofChar '\n' ∉ last) :
    ofText (ended lines ++ last) = lines.map readOf ++ if last = [] then [] else [last] := by
  have hread : ∀ line ∈ lines.map readOf, CodePoint.ofChar '\n' ∉ line := by
    intro line hmem hfeed
    obtain ⟨l, hl, rfl⟩ := List.mem_map.mp hmem
    exact h l hl (mem_of_mem_readOf hfeed)
  have hdropped : dropReturns (ended lines ++ last) = listed (lines.map readOf) ++ last := by
    rw [dropReturns_ended h, dropReturns_of_not_mem hlast]
  by_cases hopen : last = []
  · rw [hopen, List.append_nil, List.append_nil] at hdropped
    rw [hopen, if_pos rfl, List.append_nil, List.append_nil]
    rcases List.eq_nil_or_concat' (lines.map readOf) with hnone | ⟨front, line, hfront⟩
    · rw [List.map_eq_nil_iff.mp hnone]
      rfl
    · -- Without the line feed at the very end the last line stands open.
      have hshape : listed (front ++ [line])
          = (listed front ++ line) ++ [CodePoint.ofChar '\n'] := by
        simp [listed]
      rw [hfront] at hread hdropped ⊢
      obtain ⟨hbefore, hline⟩ := List.forall_mem_append.mp hread
      rw [ofText_of_ne_nil (hdropped.trans hshape) (List.concat_ne_nil _ _), dropFinalFeed,
        List.getLast?_concat, if_pos rfl, List.dropLast_concat,
        split_listed hbefore (hline line List.mem_cons_self)]
  · have hend : (listed (lines.map readOf) ++ last).getLast? ≠ some (CodePoint.ofChar '\n') := by
      rw [List.getLast?_append_of_ne_nil _ hopen]
      exact fun hfeed => hlast (List.mem_of_getLast? hfeed)
    rw [ofText_of_ne_nil hdropped (List.append_ne_nil_of_right_ne_nil _ hopen), dropFinalFeed,
      if_neg hend, if_neg hopen, split_listed hread hlast]

/-- The records of a file are its lines, each without a return at its end. -/
theorem ofText_listed {lines : List Text} (h : ∀ line ∈ lines, CodePoint.ofChar '\n' ∉ line) :
    ofText (listed lines) = lines.map dropReturn := by
  have hended : listed lines = ended (lines.map fun line => (line, .feed)) ++ [] := by
    rw [List.append_nil, listed, ended, List.flatMap_map]
    rfl
  have hlines : ∀ line ∈ lines.map fun line => (line, LineEnd.feed),
      CodePoint.ofChar '\n' ∉ line.1 := by
    intro line hmem
    obtain ⟨l, hl, rfl⟩ := List.mem_map.mp hmem
    exact h l hl
  rw [hended, ofText_ended hlines List.not_mem_nil, if_pos rfl, List.append_nil, List.map_map]
  rfl

/-! ### Blank lines -/

/-- Lines with blank ones put in anywhere. -/
inductive Padded : List Text → List Text → Prop
  | nil : Padded [] []
  | line {lines padded} (line : Text) (h : Padded lines padded) :
      Padded (line :: lines) (line :: padded)
  | blank {lines padded} {line : Text} (hblank : ∀ c ∈ line, c.isBlank = true)
      (hfeed : CodePoint.ofChar '\n' ∉ line) (h : Padded lines padded) :
      Padded lines (line :: padded)

theorem Padded.feed {lines padded : List Text} (h : Padded lines padded)
    (hlines : ∀ line ∈ lines, CodePoint.ofChar '\n' ∉ line) :
    ∀ line ∈ padded, CodePoint.ofChar '\n' ∉ line := by
  induction h with
  | nil => exact nofun
  | line line h ih =>
    intro l hl
    rcases List.mem_cons.mp hl with rfl | hl
    · exact hlines l List.mem_cons_self
    · exact ih (fun l hl => hlines l (List.mem_cons_of_mem line hl)) l hl
  | blank hblank hfeed h ih =>
    intro l hl
    rcases List.mem_cons.mp hl with rfl | hl
    · exact hfeed
    · exact ih hlines l hl

theorem nonblank_cons (line : Text) (lines : List Text) :
    nonblank (line :: lines) = if line.isBlank then nonblank lines else line :: nonblank lines := by
  rw [nonblank, nonblank, List.filter_cons]
  rcases line.isBlank with _ | _ <;> rfl

/-- The records that are not blank are the lines before any blank ones were put in. -/
theorem nonblank_padded {lines padded : List Text} (h : Padded lines padded)
    (hrecord : ∀ line ∈ lines, IsRecord line)
    (hsome : ∀ line ∈ lines, ∃ c ∈ line, c.isBlank = false) :
    nonblank (padded.map dropReturn) = lines := by
  induction h with
  | nil => rfl
  | line line h ih =>
    obtain ⟨c, hmem, hc⟩ := hsome line List.mem_cons_self
    -- A line that has lost its return is the line itself, and it is not blank.
    have hkept : ¬ line.isBlank = true := by
      intro hall
      rw [List.all_eq_true.mp hall c hmem] at hc
      cases hc
    have hrest := ih (fun l hl => hrecord l (List.mem_cons_of_mem line hl))
      fun l hl => hsome l (List.mem_cons_of_mem line hl)
    rw [List.map_cons, dropReturn_of_isRecord (hrecord line List.mem_cons_self),
      nonblank_cons, if_neg hkept, hrest]
  | @blank lines padded line hblank hfeed h ih =>
    have hleft : (dropReturn line).isBlank = true :=
      List.all_eq_true.mpr fun c hc => hblank c (mem_of_mem_dropReturn hc)
    rw [List.map_cons, nonblank_cons, if_pos hleft, ih hrecord hsome]

end Records

end LiteralSplice
