import Mathlib

/-!
This module contains a library of glob patterns over an ordered alphabet: the tokens of a pattern and
the language of texts that they describe.
-/

namespace Glob

/--
What a class lists: single symbols, and ranges whose ends may stand in either order.
-/
inductive Item (α : Type) where
  | one (symbol : α)
  | range (first last : α)

inductive Token (α : Type) where
  | anyRun
  | anyOne
  | one (symbol : α)
  | oneOf (negate : Bool) (items : List (Item α))

variable {α : Type} [LE α]

def Item.Accepts : Item α → α → Prop
  | .one symbol, ch => symbol = ch
  | .range first last, ch => (first ≤ ch ∧ ch ≤ last) ∨ (last ≤ ch ∧ ch ≤ first)

/--
The symbols a token stands for, if it stands for one at a time.
-/
def Token.Accepts : Token α → α → Prop
  | .anyRun, _ => False
  | .anyOne, _ => True
  | .one symbol, ch => symbol = ch
  | .oneOf negate items, ch => (∃ item ∈ items, item.Accepts ch) ↔ negate = false

def Token.language : Token α → Language α
  | .anyRun => ⊤
  | token => { text | ∃ ch, text = [ch] ∧ token.Accepts ch }

/--
The texts that a list of tokens describes, one part for each token.
-/
def language (tokens : List (Token α)) : Language α := (tokens.map Token.language).prod

variable {tokens : List (Token α)} {text : List α}

theorem mem_language_nil : text ∈ language ([] : List (Token α)) ↔ text = [] := by
  exact Language.mem_one text

theorem mem_language_cons {token : Token α}
    : text ∈ language (token :: tokens)
        ↔
      ∃ first ∈ token.language, ∃ rest ∈ language tokens, first ++ rest = text := by
  unfold language
  rw [List.map_cons, List.prod_cons, Language.mem_mul]

theorem mem_language_anyRun
    : text ∈ language (.anyRun :: tokens) ↔ ∃ rest, rest <:+ text ∧ rest ∈ language tokens := by
  rw [mem_language_cons]
  constructor
  . rintro ⟨first, -, rest, hrest, happend⟩
    exact ⟨rest, ⟨first, happend⟩, hrest⟩
  . rintro ⟨rest, ⟨first, happend⟩, hrest⟩
    exact ⟨first, trivial, rest, hrest, happend⟩

theorem mem_language_one {token : Token α} (h : token ≠ .anyRun)
    : text ∈ language (token :: tokens)
        ↔
      ∃ ch rest, text = ch :: rest ∧ token.Accepts ch ∧ rest ∈ language tokens := by
  have hlanguage : ∀ first, first ∈ token.language ↔ ∃ ch, first = [ch] ∧ token.Accepts ch := by
    intro first
    cases token with
    | anyRun => exact absurd rfl h
    | _ => rfl
  rw [mem_language_cons]
  constructor
  . rintro ⟨first, hfirst, rest, hrest, happend⟩
    rcases (hlanguage first).mp hfirst with ⟨ch, rfl, haccepts⟩
    exact ⟨ch, rest, happend.symm, haccepts, hrest⟩
  . rintro ⟨ch, rest, rfl, haccepts, hrest⟩
    exact ⟨[ch], (hlanguage [ch]).mpr ⟨ch, rfl, haccepts⟩, rest, hrest, rfl⟩

end Glob
