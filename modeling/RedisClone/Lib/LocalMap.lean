import RedisClone.Lib.LiveMap

/-!
This module contains a library of operations on maps that read and write the entries of certain keys
only. Two such operations on disjoint keys commute.
-/

namespace LiveMap

set_option linter.unusedSectionVars false

variable {κ ε α β σ : Type} [DecidableEq κ] [Ord κ] [Std.TransOrd κ] [Std.LawfulEqOrd κ]

/--
Two maps with the same entries at certain keys.
-/
def AgreeOn (keys : List κ) (m m' : Std.ExtTreeMap κ ε) : Prop :=
  ∀ k ∈ keys, m[k]? = m'[k]?

/--
An operation that changes no entry but those of `keys`, and whose result and effect depend on nothing
but these entries.
-/
structure LocalTo (keys : List κ) (f : Std.ExtTreeMap κ ε → Std.ExtTreeMap κ ε × α) : Prop where
  frame : ∀ (m : Std.ExtTreeMap κ ε) (k : κ), k ∉ keys → (f m).1[k]? = m[k]?
  result : ∀ (m m' : Std.ExtTreeMap κ ε), AgreeOn keys m m' → (f m).2 = (f m').2
  effect : ∀ (m m' : Std.ExtTreeMap κ ε), AgreeOn keys m m' → AgreeOn keys (f m).1 (f m').1

namespace LocalTo

variable {keys keys' : List κ} {f : Std.ExtTreeMap κ ε → Std.ExtTreeMap κ ε × α}
  {g : Std.ExtTreeMap κ ε → Std.ExtTreeMap κ ε × β} {m m' : Std.ExtTreeMap κ ε}

theorem agreeOn_frame (hf : LocalTo keys f) (hdisjoint : keys.Disjoint keys')
    (m : Std.ExtTreeMap κ ε)
    : AgreeOn keys' (f m).1 m := by
  intro k hmem
  apply hf.frame
  intro hmem'
  exact hdisjoint hmem' hmem

/--
Operations on disjoint keys commute: each gives the same result before and after the other, and both
orders lead to the same map.
-/
theorem commute (hf : LocalTo keys f) (hg : LocalTo keys' g) (hdisjoint : keys.Disjoint keys')
    (m : Std.ExtTreeMap κ ε)
    : (g (f m).1).2 = (g m).2 ∧ (f (g m).1).2 = (f m).2 ∧ (g (f m).1).1 = (f (g m).1).1 := by
  have hkeep := hf.agreeOn_frame hdisjoint m
  have hkeep' := hg.agreeOn_frame hdisjoint.symm m
  refine ⟨hg.result _ _ hkeep, hf.result _ _ hkeep', ?_⟩
  apply Std.ExtTreeMap.ext_getElem?
  intro k
  by_cases hmem : k ∈ keys
  . have hk : k ∉ keys' := fun hmem' => hdisjoint hmem hmem'
    rw [hg.frame _ k hk]
    exact (hf.effect _ _ hkeep' k hmem).symm
  . rw [hf.frame _ k hmem]
    by_cases hmem' : k ∈ keys'
    . exact hg.effect _ _ hkeep k hmem'
    . rw [hg.frame _ k hmem', hg.frame _ k hmem', hf.frame _ k hmem]

theorem mono (hf : LocalTo keys f) (hsub : ∀ k ∈ keys, k ∈ keys') : LocalTo keys' f := by
  refine ⟨?_, ?_, ?_⟩
  . intro m k hk
    apply hf.frame
    intro hmem
    exact hk (hsub k hmem)
  . intro m m' hagree
    apply hf.result
    intro k hmem
    exact hagree k (hsub k hmem)
  . intro m m' hagree k hmem'
    by_cases hmem : k ∈ keys
    . exact hf.effect m m' (fun other hother => hagree other (hsub other hother)) k hmem
    . rw [hf.frame _ k hmem, hf.frame _ k hmem]
      exact hagree k hmem'

theorem congr (hf : LocalTo keys f) {f' : Std.ExtTreeMap κ ε → Std.ExtTreeMap κ ε × α}
    (h : ∀ m, f' m = f m)
    : LocalTo keys f' := by
  rw [show f' = f from funext h]
  exact hf

theorem pure (keys : List κ) (a : α) : LocalTo keys fun m : Std.ExtTreeMap κ ε => (m, a) := by
  exact ⟨fun _ _ _ => rfl, fun _ _ _ => rfl, fun _ _ hagree => hagree⟩

theorem read {view : Std.ExtTreeMap κ ε → α}
    (hview : ∀ m m', AgreeOn keys m m' → view m = view m')
    : LocalTo keys fun m => (m, view m) := by
  exact ⟨fun _ _ _ => rfl, hview, fun _ _ hagree => hagree⟩

theorem bind {g : α → Std.ExtTreeMap κ ε → Std.ExtTreeMap κ ε × β} (hf : LocalTo keys f)
    (hg : ∀ a, LocalTo keys (g a))
    : LocalTo keys fun m => g (f m).2 (f m).1 := by
  refine ⟨?_, ?_, ?_⟩
  . intro m k hk
    rw [(hg _).frame _ k hk, hf.frame _ k hk]
  . intro m m' hagree
    rw [hf.result m m' hagree]
    exact (hg _).result _ _ (hf.effect m m' hagree)
  . intro m m' hagree
    rw [hf.result m m' hagree]
    exact (hg _).effect _ _ (hf.effect m m' hagree)

theorem put (k : κ) (o : Option ε) (a : α)
    : LocalTo [k] fun m : Std.ExtTreeMap κ ε => (LiveMap.put m k o, a) := by
  refine ⟨?_, fun _ _ _ => rfl, ?_⟩
  . intro m other hother
    rw [getElem?_put, if_neg]
    rintro rfl
    exact hother List.mem_cons_self
  . intro m m' hagree other hmem
    rw [List.mem_singleton] at hmem
    subst hmem
    rw [getElem?_put_self, getElem?_put_self]

theorem live_congr (alive : ε → Bool) {k : κ} (hagree : AgreeOn keys m m') (hmem : k ∈ keys)
    : live alive m k = live alive m' k := by
  unfold live
  rw [hagree k hmem]

theorem atKey (alive : ε → Bool) (k : κ) (op : Option ε → Option ε × α)
    : LocalTo [k] (LiveMap.atKey alive k op) := by
  have hlive : LocalTo [k] fun m : Std.ExtTreeMap κ ε => (m, live alive m k) := by
    apply read
    intro m m' hagree
    exact live_congr alive hagree List.mem_cons_self
  exact hlive.bind fun found => put k (op found).1 (op found).2

theorem foldl {step : Std.ExtTreeMap κ ε × σ → α → Std.ExtTreeMap κ ε × σ} {items : List α}
    (hstep : ∀ item ∈ items, ∀ state, LocalTo keys fun m => step (m, state) item) (state : σ)
    : LocalTo keys fun m => items.foldl step (m, state) := by
  induction items generalizing state with
  | nil => exact pure keys state
  | cons item items ih =>
    have hfirst := hstep item List.mem_cons_self state
    exact hfirst.bind fun state' =>
      ih (fun other hmem => hstep other (List.mem_cons_of_mem _ hmem)) state'

end LocalTo
end LiveMap
