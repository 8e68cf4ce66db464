import RedisClone.Command.Parse

/-!
This module contains what parsing guarantees about a command: the checks of the parser that the
execution of commands relies on.
-/

namespace RedisClone
namespace Command

/--
The guarantees of a command parsed from `tokens`.
-/
def WellFormed (tokens : List String) : Command → Prop
  | .lPush _ values | .rPush _ values => values ≠ []
  | .sAdd _ values => values ≠ [] ∧ ∀ value ∈ values, value ∈ tokens
  | .zAdd _ members => members ≠ [] ∧ ∀ pair ∈ members, pair.1.isNaN = false
  | .zIncrBy _ increment _ => increment.isNaN = false
  | .sPop key => key ∈ tokens
  | _ => True

theorem singleKey_mem {args : List String} {command key : String}
    (h : singleKey args command = .ok key) : key ∈ args := by
  unfold singleKey at h
  split at h
  . cases h
    exact List.mem_singleton.mpr rfl
  . cases h

theorem keyAndValues_wellFormed {args values : List String} {command key : String}
    (h : keyAndValues args command = .ok (key, values))
    : values ≠ [] ∧ ∀ value ∈ values, value ∈ args := by
  unfold keyAndValues at h
  split at h
  . cases h
    simp only [ne_eq, List.cons_ne_nil, not_false_eq_true, true_and]
    intro value hmem
    exact List.mem_cons_of_mem _ hmem
  . cases h

theorem parseScore_not_isNaN {raw : String} {score : Float} (h : parseScore raw = .ok score)
    : score.isNaN = false := by
  unfold parseScore at h
  split at h
  . split at h
    . cases h
    . next hnan =>
      cases h
      simpa using hnan
  . cases h

theorem scorePairs_not_isNaN {args : List String} {members : List (Float × String)}
    (h : scorePairs args = .ok members) : ∀ pair ∈ members, pair.1.isNaN = false := by
  fun_induction scorePairs args generalizing members with
  | case1 score member rest ih =>
    simp only [bind_eq_ok] at h
    rcases h with ⟨parsed, hparsed, others, hothers, h⟩
    cases h
    intro pair hmem
    rcases List.mem_cons.mp hmem with rfl | hmem
    . exact parseScore_not_isNaN hparsed
    . exact ih hothers pair hmem
  | case2 =>
    cases h
    simp

theorem scorePairs_ne_nil {args : List String} {members : List (Float × String)}
    (hlen : 2 ≤ args.length) (h : scorePairs args = .ok members) : members ≠ [] := by
  match args with
  | score :: member :: rest =>
    simp only [scorePairs, bind_eq_ok] at h
    rcases h with ⟨parsed, -, others, -, h⟩
    cases h
    simp
  | [_] | [] => simp at hlen

/--
What holds of the result whenever a parser succeeds.
-/
def Ensures {ε α : Type} (P : α → Prop) (result : Except ε α) : Prop :=
  ∀ a, result = .ok a → P a

namespace Ensures

variable {ε α β : Type} {P : β → Prop}

theorem error {e : ε} : Ensures P (.error e) := by
  intro b h
  cases h

theorem ok {b : β} (h : P b) : Ensures P (.ok b : Except ε β) := by
  rintro _ ⟨⟩
  exact h

theorem bind {result : Except ε α} {next : α → Except ε β}
    (h : ∀ a, result = .ok a → Ensures P (next a))
    : Ensures P (result >>= next) := by
  intro b hb
  rw [bind_eq_ok] at hb
  rcases hb with ⟨a, ha, hb⟩
  exact h a ha b hb

end Ensures

section

variable (raw : String) (args : List String)

theorem lPush_wellFormed : Ensures (WellFormed (raw :: args)) (parseNamed raw "LPUSH" args) := by
  apply Ensures.bind
  rintro ⟨key, values⟩ hvalues
  exact .ok (keyAndValues_wellFormed hvalues).1

theorem rPush_wellFormed : Ensures (WellFormed (raw :: args)) (parseNamed raw "RPUSH" args) := by
  apply Ensures.bind
  rintro ⟨key, values⟩ hvalues
  exact .ok (keyAndValues_wellFormed hvalues).1

theorem sAdd_wellFormed : Ensures (WellFormed (raw :: args)) (parseNamed raw "SADD" args) := by
  apply Ensures.bind
  rintro ⟨key, values⟩ hvalues
  rcases keyAndValues_wellFormed hvalues with ⟨hne, hmem⟩
  exact .ok ⟨hne, fun value hvalue => List.mem_cons_of_mem _ (hmem value hvalue)⟩

theorem zAdd_wellFormed : Ensures (WellFormed (raw :: args)) (parseNamed raw "ZADD" args) := by
  match args with
  | [] => exact .error
  | key :: rest =>
    show Ensures _ (if (!rest.isEmpty && rest.length % 2 == 0) = true then _ else _)
    split
    . next hrest =>
      apply Ensures.bind
      intro members hmembers
      have hlength : 2 ≤ rest.length := by
        simp only [Bool.and_eq_true, Bool.not_eq_true', beq_iff_eq, List.isEmpty_eq_false_iff,
          ← List.length_pos_iff] at hrest
        omega
      exact .ok ⟨scorePairs_ne_nil hlength hmembers, scorePairs_not_isNaN hmembers⟩
    . exact .error

theorem zIncrBy_wellFormed
    : Ensures (WellFormed (raw :: args)) (parseNamed raw "ZINCRBY" args) := by
  match args with
  | [key, increment, member] =>
    apply Ensures.bind
    intro parsed hparsed
    exact .ok (parseScore_not_isNaN hparsed)
  | [] | [_] | [_, _] | _ :: _ :: _ :: _ :: _ => exact .error

theorem sPop_wellFormed : Ensures (WellFormed (raw :: args)) (parseNamed raw "SPOP" args) := by
  apply Ensures.bind
  intro key hkey
  exact .ok (List.mem_cons_of_mem _ (singleKey_mem hkey))

/--
The names of the commands that something is guaranteed of.
-/
def guaranteed : List String := ["LPUSH", "RPUSH", "SADD", "ZADD", "ZINCRBY", "SPOP"]

/--
The other names make commands that nothing is guaranteed of.
-/
theorem wellFormed_of_not_guaranteed {name : String} (h : name ∉ guaranteed)
    : Ensures (WellFormed (raw :: args)) (parseNamed raw name args) := by
  unfold parseNamed
  split
  -- every branch of the parser is an error, a command, or a parser with something behind it
  all_goals repeat' first
    | exact absurd (by decide) h
    | with_reducible exact Ensures.error
    | (with_reducible apply Ensures.ok) <;> exact trivial
    | with_reducible refine Ensures.bind fun _ _ => ?_
    | split

end

/--
Every parsed command meets the guarantees.
-/
theorem parse_wellFormed {tokens : List String} {command : Command}
    (h : parse tokens = .ok command) : command.WellFormed tokens := by
  cases tokens with
  | nil => cases h
  | cons raw args =>
    suffices hensures : ∀ name, Ensures (WellFormed (raw :: args)) (parseNamed raw name args) by
      exact hensures _ command h
    intro name
    by_cases hname : name ∈ guaranteed
    . simp only [guaranteed, List.mem_cons, List.not_mem_nil, or_false] at hname
      rcases hname with rfl | rfl | rfl | rfl | rfl | rfl
      . exact lPush_wellFormed raw args
      . exact rPush_wellFormed raw args
      . exact sAdd_wellFormed raw args
      . exact zAdd_wellFormed raw args
      . exact zIncrBy_wellFormed raw args
      . exact sPop_wellFormed raw args
    . exact wellFormed_of_not_guaranteed raw args hname

end Command
end RedisClone
