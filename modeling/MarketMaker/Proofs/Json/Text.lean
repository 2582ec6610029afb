import Mathlib.Data.List.Forall2
import Mathlib.Tactic.SplitIfs
import MarketMaker.Json.Printer

/-!
# Strings read back

A string between its quotes is read back, whatever characters it is made of (`Token.string?_quote`). Each
character is written as one piece (`StringPiece.Stands`): as itself, behind a backslash, or, if it is a
control character without an escape of its own, by its number.
-/

namespace MarketMaker.Json

namespace StringPiece

/-- A piece stands for a character. No half of a surrogate pair does. -/
inductive Stands : StringPiece → Char → Prop where
  | char (c : Char) : Stands (.char c) c
  | code {c : Char} (control : c.toNat < 0x20) : Stands (.code c.toNat) c

variable {read pieces : List StringPiece} {cs rest : List Char}

theorem scan?_plain {c : Char} (quote : c ≠ '"') (backslash : c ≠ '\\') (printed : ¬c.toNat < 0x20) :
    scan? read (c :: cs) = scan? (.char c :: read) cs := by
  rw [scan?]
  · simp [printed, backslash]
  · rintro rfl
    exact absurd rfl quote
  · intro a b c d rest same
    exact absurd same backslash
  · intro e rest same
    exact absurd same backslash

theorem scan?_code {c : Char} (control : c.toNat < 0x20) :
    scan? read (['\\', 'u', '0', '0', Text.hexDigit (c.toNat / 16), Text.hexDigit (c.toNat % 16)] ++
      cs) = scan? (.code c.toNat :: read) cs := by
  have high := Text.hexValue?_hexDigit ⟨c.toNat / 16, by omega⟩
  have low := Text.hexValue?_hexDigit ⟨c.toNat % 16, by omega⟩
  have zero : Text.hexValue? '0' = some 0 := by decide
  have value : code? '0' '0' (Text.hexDigit (c.toNat / 16)) (Text.hexDigit (c.toNat % 16)) =
      some c.toNat := by
    simp only at high low
    simp only [code?, zero, high, low, Option.bind_eq_bind, Option.bind_some, Option.pure_def]
    congr 1
    omega
  change (code? _ _ _ _).bind _ = _
  rw [value]
  rfl

/-- What is written of a character is read as one piece. -/
theorem scan?_escape (c : Char) :
    ∃ p, Stands p c ∧ ∀ read cs, scan? read (escape c ++ cs) = scan? (p :: read) cs := by
  unfold escape
  split_ifs with quote backslash backspace feed line carriage tab control
  · subst quote; exact ⟨_, .char _, fun _ _ => rfl⟩
  · subst backslash; exact ⟨_, .char _, fun _ _ => rfl⟩
  · subst backspace; exact ⟨_, .char _, fun _ _ => rfl⟩
  · subst feed; exact ⟨_, .char _, fun _ _ => rfl⟩
  · subst line; exact ⟨_, .char _, fun _ _ => rfl⟩
  · subst carriage; exact ⟨_, .char _, fun _ _ => rfl⟩
  · subst tab; exact ⟨_, .char _, fun _ _ => rfl⟩
  · exact ⟨_, .code control, fun _ _ => scan?_code control⟩
  · exact ⟨_, .char c, fun _ _ => scan?_plain quote backslash control⟩

/-- What is written of characters is read as pieces that stand for them. -/
theorem scan?_flatMap_escape (cs : List Char) :
    ∃ pieces, List.Forall₂ Stands pieces cs ∧
      ∀ read rest, scan? read (cs.flatMap escape ++ '"' :: rest) =
        some (read.reverse ++ pieces, rest) := by
  induction cs with
  | nil => exact ⟨[], .nil, fun read rest => by simp [scan?]⟩
  | cons c cs ih =>
    obtain ⟨p, stands, one⟩ := scan?_escape c
    obtain ⟨pieces, all, rest⟩ := ih
    refine ⟨p :: pieces, .cons stands all, fun read rest' => ?_⟩
    rw [List.flatMap_cons, List.append_assoc, one, rest, List.reverse_cons, List.append_assoc]
    rfl

theorem characters?_code {n : ℕ} (small : n < 0x20) (found : List Char)
    (stands : List.Forall₂ Stands pieces cs) :
    characters? found (.code n :: pieces) = characters? (Char.ofNat n :: found) pieces := by
  have whole : ∀ {n : ℕ}, n < 0x20 → isHigh n = false ∧ isLow n = false := by
    intro n small
    simp only [isHigh, isLow, Bool.and_eq_false_iff, decide_eq_false_iff_not]
    omega
  cases stands with
  | nil => simp [characters?, whole small]
  | cons first _ =>
    cases first with
    | char c => simp [characters?, whole small]
    | code control => simp [characters?, whole small, whole control]

/-- Pieces that stand for characters name them. -/
theorem characters?_of_stands (stands : List.Forall₂ Stands pieces cs) (found : List Char) :
    characters? found pieces = some (found.reverse ++ cs) := by
  induction stands generalizing found with
  | nil => simp [characters?]
  | cons first rest ih =>
    cases first with
    | char c =>
      rw [characters?, ih]
      simp
    | code control =>
      rw [characters?_code control found rest, ih]
      simp

end StringPiece

/-- **A string is read back** from between its quotes. -/
theorem Token.string?_quote (s : String) (rest : List Char) :
    Token.string? (s.toList.flatMap escape ++ '"' :: rest) = some (.string (some s), rest) := by
  obtain ⟨pieces, stands, scanned⟩ := StringPiece.scan?_flatMap_escape s.toList
  rw [Token.string?, scanned]
  simp [StringPiece.characters?_of_stands stands]

end MarketMaker.Json
