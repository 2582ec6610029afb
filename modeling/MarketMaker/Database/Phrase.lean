import MarketMaker.Database.Token

/-!
# Phrases

What definitions are put together from: fixed words, names, and lists in brackets. Names are the same in
small and large letters.
-/

namespace MarketMaker.Database

/-- Whether two names are the same. -/
def sameName (a b : String) : Bool :=
  a.toLower = b.toLower

/-- Whether a name is among others. -/
def isAmong (name : String) (names : List String) : Bool :=
  names.any (sameName name)

namespace Phrase

/-- Passes over words. -/
def pass? : List String → List Token → Option (List Token)
  | [], ts => some ts
  | _ :: _, [] => none
  | w :: ws, t :: ts => if t.isWord w then pass? ws ts else none

/-- Passes over words, if they are there. -/
def pass (words : List String) (ts : List Token) : List Token :=
  (pass? words ts).getD ts

/-- Passes over the first of some phrases that is there, if one is. -/
def passAny (phrases : List (List String)) (ts : List Token) : List Token :=
  (phrases.findSome? (pass? · ts)).getD ts

/-- Reads a name. -/
def name? : List Token → Option (String × List Token)
  | [] => none
  | t :: ts => t.name?.map (·, ts)

/-- Passes over a name. -/
def passName? (ts : List Token) : Option (List Token) :=
  (name? ts).map (·.2)

/-- Reads what stands before a closing bracket, in pieces between commas; brackets within a piece stay
in it. The piece begun is `piece`, the last token first. -/
def list? (depth : Nat) (piece : List Token) : List Token → Option (List (List Token) × List Token)
  | [] => none
  | t :: ts =>
    if t = .mark ')' then
      match depth with
      | 0 => some ([piece.reverse], ts)
      | depth + 1 => list? depth (t :: piece) ts
    else if t = .mark '(' then list? (depth + 1) (t :: piece) ts
    else if t = .mark ',' ∧ depth = 0 then
      (list? 0 [] ts).map fun (pieces, rest) => (piece.reverse :: pieces, rest)
    else list? depth (t :: piece) ts

/-- Reads a list in brackets. No piece of it is empty. -/
def brackets? : List Token → Option (List (List Token) × List Token)
  | t :: ts => do
    let (pieces, rest) ← if t = .mark '(' then list? 0 [] ts else none
    if pieces.any List.isEmpty then none else return (pieces, rest)
  | [] => none

/-- Passes over a list in brackets, if it is there. -/
def passBrackets (ts : List Token) : List Token :=
  (brackets? ts).elim ts (·.2)

/-- Passes over something computed, in brackets. -/
def passComputed? (ts : List Token) : Option (List Token) := do
  match ← brackets? ts with
  | ([_], rest) => return rest
  | _ => none

/-- Whether a word stands outside all brackets. -/
def hasWord (word : String) (depth : Nat) : List Token → Bool
  | [] => false
  | t :: ts =>
    depth = 0 && t.isWord word ||
      hasWord word
        (if t = .mark '(' then depth + 1 else if t = .mark ')' then depth - 1 else depth) ts

end Phrase

end MarketMaker.Database
