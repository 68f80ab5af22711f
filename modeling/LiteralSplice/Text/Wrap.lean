/-
Wrapping running text into lines.

* **`Wrap.pieces`**: the pieces between which a line may be broken;
* **`Wrap.lines`**: the text in lines of a given width.

Design notes: a text is cut into blanks, words and dashes.  Two or more hyphens between words are
a dash; a word also ends after a single hyphen that joins letters.  Going through the text, what
becomes of a code point hangs on the kind of piece it would go on, on what stands right behind it,
and on what stands right ahead.  A line takes pieces as long as they fit.  A piece that is wider
than a line is cut, if it can be after a hyphen; blanks go at either end of a line, but not at the
start of the first.
-/
import LiteralSplice.Text.Blank
import LiteralSplice.Text.WordCharacter

namespace LiteralSplice

namespace Wrap

/-! ### Cutting a text into pieces -/

/-- A space or one of the ASCII controls for white space. -/
def isGap (c : CodePoint) : Bool := c == ' ' || (0x09 ≤ c.val && c.val ≤ 0x0D)

/-- Whether a dash may follow: a character of words, or a mark that ends a word. -/
def endsWord (c : CodePoint) : Bool :=
  c.isWordCharacter || ("!\"'&.,?" : Text).contains c

/-- Whether a dash between words starts here; `behind` is reversed. -/
def startsDash (behind ahead : Text) : Bool :=
  let hyphens := ahead.takeWhile fun (c : CodePoint) => c == '-'
  (behind.head?.map endsWord).getD false && 2 ≤ hyphens.length &&
    (((ahead.drop hyphens.length).head?).map CodePoint.isWordCharacter).getD false

/-- Whether a hyphen with the given text behind and ahead of it joins letters; `behind` is
reversed.  Behind it stand two letters, which may have a hyphen before the second; ahead of it too,
with a hyphen after the first. -/
def joinsLetters (behind ahead : Text) : Bool :=
  let lettersBehind :=
    match behind with
    | a :: b :: rest =>
      a.isLetter && (b.isLetter || (b == '-' && (rest.head?.map CodePoint.isLetter).getD false))
    | _ => false
  let lettersAhead :=
    match ahead with
    | a :: b :: rest =>
      a.isLetter && (b.isLetter || (b == '-' && (rest.head?.map CodePoint.isLetter).getD false))
    | _ => false
  lettersBehind && lettersAhead

/-- What a piece is, as far as it has been read. -/
inductive Kind where
  | gap
  | dash
  | word
  /-- A word that has ended after a hyphen; nothing goes on it. -/
  | ended
  deriving DecidableEq, Repr

/-- What a piece is that starts with a code point. -/
def Kind.start (behind : Text) (c : CodePoint) (rest : Text) : Kind :=
  if isGap c then gap else if startsDash behind (c :: rest) then dash else word

/-- What a piece is once a code point has gone on it, if it goes on it. -/
def Kind.goOn? (kind : Kind) (behind : Text) (c : CodePoint) (rest : Text) : Option Kind :=
  match kind with
  | gap => if isGap c then some gap else none
  | dash => if c = '-' then some dash else none
  | word =>
    if isGap c || startsDash behind (c :: rest) then none
    else if c == '-' && joinsLetters behind rest then some ended
    else some word
  | ended => none

/-- Cuts a text; `piece` is the piece that is being read, reversed, and `behind` everything. -/
def cut (kind : Kind) (behind piece : Text) : Text → List Text
  | [] => [piece.reverse]
  | c :: rest =>
    match kind.goOn? behind c rest with
    | some kind => cut kind (c :: behind) (c :: piece) rest
    | none => piece.reverse :: cut (Kind.start behind c rest) (c :: behind) [c] rest

/-- The pieces between which a line may be broken. -/
def pieces (t : Text) : List Text := (cut .ended [] [] t).filter fun piece => !piece.isEmpty

/-! ### Filling lines -/

/-- The pieces that fit into a line, and those that are left. -/
def takeFitting (room : Nat) : List Text → List Text × List Text
  | [] => ([], [])
  | piece :: rest =>
    if piece.length ≤ room then
      let (line, left) := takeFitting (room - piece.length) rest
      (piece :: line, left)
    else ([], piece :: rest)

/-- Where a piece that is wider than a line is cut: after the last hyphen for which there is room,
unless only hyphens stand before it, and else where there is no more room. -/
def cutPlace (room : Nat) (piece : Text) : Nat :=
  match Text.splitLast? '-' (piece.take room) with
  | some (before, _) => if before.any (· != '-') then before.length + 1 else room
  | none => room

/-- The next line, in pieces, and the pieces that are left. -/
def nextLine (width : Nat) (isFirst : Bool) (ps : List Text) : List Text × List Text :=
  let ps :=
    match ps with
    | piece :: rest => if !isFirst && piece.isBlank then rest else ps
    | [] => []
  let (line, left) := takeFitting width ps
  let (line, left) :=
    match left with
    | piece :: rest =>
      if width < piece.length then
        let place := cutPlace (width - line.flatten.length) piece
        (line ++ [piece.take place], piece.drop place :: rest)
      else (line, left)
    | [] => (line, [])
  ((if (line.getLast?.getD []).isBlank then line.dropLast else line), left)

/-- Line after line; a line that is left without pieces is left out.  Every line takes at least
one piece or one code point, so there are at most `fuel` lines if that is their number. -/
def fill (width : Nat) : Nat → Bool → List Text → List Text
  | 0, _, _ => []
  | _ + 1, _, [] => []
  | fuel + 1, isFirst, ps@(_ :: _) =>
    match nextLine width isFirst ps with
    | ([], left) => fill width fuel isFirst left
    | (line, left) => line.flatten :: fill width fuel false left

/-- A text in lines of a given width. -/
def lines (width : Nat) (t : Text) : List Text :=
  fill width (2 * t.length + 1) true (pieces t)

end Wrap

end LiteralSplice
