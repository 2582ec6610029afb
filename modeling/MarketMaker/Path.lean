import MarketMaker.Text.Bytes

/-!
# Paths

A path is bytes with slashes between its pieces. An empty piece and a piece of one dot stay where they
are, a piece of two dots goes back up, and any other piece is the name of something below. A path whose
first piece is empty, and not the only one, starts from the root; any other starts from the place where
one stands. Nothing but the slash is special in a name, which need not be a text.
-/

namespace MarketMaker

/-- A name, in bytes. -/
abbrev Name := List UInt8

/-- A place: the names that lead there from the root. -/
abbrev Place := List Name

/-- A path. -/
structure Path where
  pieces : List Name
deriving DecidableEq

namespace Path

/-- The byte between pieces. -/
def slash : UInt8 := 0x2F

/-- The byte that makes up the pieces which are no names. -/
def dot : UInt8 := 0x2E

/-- The path in bytes. -/
def ofBytes (bytes : List UInt8) : Path :=
  ⟨bytes.splitOn slash⟩

/-- The path in a text. -/
def ofString (text : String) : Path :=
  ofBytes (Text.bytes text)

/-- The bytes of a path. -/
def bytes (p : Path) : List UInt8 :=
  [slash].intercalate p.pieces

/-- Whether a path starts from the root. -/
def isRooted (p : Path) : Bool :=
  match p.pieces with
  | [] :: _ :: _ => true
  | _ => false

/-- The path from the root to a place. -/
def ofPlace : Place → Path
  | [] => ⟨[[], []]⟩
  | place => ⟨[] :: place⟩

/-- The path to what has the same name with an ending. -/
def withEnding (p : Path) (ending : String) : Path :=
  ⟨p.pieces.dropLast ++ [p.pieces.getLast?.getD [] ++ Text.bytes ending]⟩

/-- Where a piece of a path leads. -/
inductive Turn where
  | stay
  | up
  | down (name : Name)
deriving DecidableEq

/-- What a piece says. -/
def turnOf (piece : Name) : Turn :=
  if piece = [] || piece = [dot] then .stay
  else if piece = [dot, dot] then .up
  else .down piece

end Path

end MarketMaker
