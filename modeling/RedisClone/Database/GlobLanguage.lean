import RedisClone.Lib.Glob
import RedisClone.Database.Glob

/-!
This module contains the grammar of the patterns of `KEYS`, and the proof that the matcher decides the
language of a pattern and never indexes out of bounds.
-/

namespace RedisClone

open Glob (Item Token)

/--
The items of a class, and what follows the class. Each rule excludes the ones that are tried before it.
-/
inductive Items : List UInt8 → List (Item UInt8) → List UInt8 → Prop where
  | unterminated : Items [] [] []
  | closed (rest : List UInt8) : Items (closeBracket :: rest) [] rest
  | escaped (literal : UInt8) {rest items after} (h : Items rest items after)
    : Items (backslash :: literal :: rest) (.one literal :: items) after
  | range {first last rest items after} (hclose : first ≠ closeBracket)
    (hescape : first ≠ backslash) (hlast : last ≠ closeBracket) (h : Items rest items after)
    : Items (first :: dash :: last :: rest) (.range first last :: items) after
  | one {first rest items after} (hclose : first ≠ closeBracket)
    (hescape : first = backslash → rest = [])
    (hrange : ∀ last more, rest = dash :: last :: more → last = closeBracket)
    (h : Items rest items after)
    : Items (first :: rest) (.one first :: items) after

/--
A class after its opening bracket: whether it is negated, its items, and what follows it.
-/
inductive Class : List UInt8 → Bool → List (Item UInt8) → List UInt8 → Prop where
  | negated {sign rest items after} (hsign : sign = caret ∨ sign = bang)
    (h : Items rest items after)
    : Class (sign :: rest) true items after
  | plain {cls items after} (hsign : ∀ sign rest, cls = sign :: rest → sign ≠ caret ∧ sign ≠ bang)
    (h : Items cls items after)
    : Class cls false items after

/--
A pattern, read from left to right as tokens.
-/
inductive Reads : List UInt8 → List (Token UInt8) → Prop where
  | nil : Reads [] []
  | star {rest tokens} (h : Reads rest tokens) : Reads (star :: rest) (.anyRun :: tokens)
  | questionMark {rest tokens} (h : Reads rest tokens)
    : Reads (questionMark :: rest) (.anyOne :: tokens)
  | cls {rest negate items after tokens} (hcls : Class rest negate items after)
    (h : Reads after tokens)
    : Reads (openBracket :: rest) (.oneOf negate items :: tokens)
  | escaped (literal : UInt8) {rest tokens} (h : Reads rest tokens)
    : Reads (backslash :: literal :: rest) (.one literal :: tokens)
  | lone : Reads [backslash] [.one backslash]
  | literal {literal rest tokens}
    (hliteral : literal ∉ [star, questionMark, openBracket, backslash])
    (h : Reads rest tokens)
    : Reads (literal :: rest) (.one literal :: tokens)

/--
The language of a pattern.
-/
def patternLanguage (pattern : List UInt8) : Language UInt8 :=
  { text | ∃ tokens, Reads pattern tokens ∧ text ∈ Glob.language tokens }

/-
The items of a class.
-/

variable {ch : UInt8} {cls rest after : List UInt8} {items : List (Item UInt8)} {matched : Bool}
  {i : Nat}

theorem matchItems_closed
    : matchItems ch (closeBracket :: rest) matched i = (matched, i + 1) := by
  match rest with
  | [] => simp [matchItems]
  | [_] => simp [matchItems]
  | _ :: _ :: _ => simp [matchItems]

theorem matchItems_escaped (literal : UInt8)
    : matchItems ch (backslash :: literal :: rest) matched i
        =
      matchItems ch rest (matched || literal == ch) (i + 2) := by
  have hclose : backslash ≠ closeBracket := by decide
  cases rest with
  | nil => simp [matchItems, hclose]
  | cons next rest => simp [matchItems, hclose]

theorem matchItems_range {first last : UInt8} (hclose : first ≠ closeBracket)
    (hescape : first ≠ backslash) (hlast : last ≠ closeBracket)
    : matchItems ch (first :: dash :: last :: rest) matched i
        =
      matchItems ch rest
        (matched || decide (min first last ≤ ch ∧ ch ≤ max first last)) (i + 3) := by
  simp [matchItems, hclose, hescape, hlast]

theorem matchItems_one {first : UInt8} (hclose : first ≠ closeBracket)
    (hescape : first = backslash → rest = [])
    (hrange : ∀ last more, rest = dash :: last :: more → last = closeBracket)
    : matchItems ch (first :: rest) matched i
        =
      matchItems ch rest (matched || first == ch) (i + 1) := by
  match rest with
  | [] => simp [matchItems, hclose]
  | [second] =>
    have hplain : first ≠ backslash := fun heq => List.cons_ne_nil _ _ (hescape heq)
    simp [matchItems, hclose, hplain]
  | second :: third :: more =>
    have hplain : first ≠ backslash := fun heq => List.cons_ne_nil _ _ (hescape heq)
    have hnot : ¬ (second = dash ∧ third ≠ closeBracket) := by
      rintro ⟨rfl, hthird⟩
      exact hthird (hrange third more rfl)
    simp [matchItems, hclose, hplain, hnot]

theorem accepts_range_iff {first last : UInt8}
    : (Item.range first last).Accepts ch ↔ min first last ≤ ch ∧ ch ≤ max first last := by
  have hmin : min first last = if first ≤ last then first else last := rfl
  have hmax : max first last = if first ≤ last then last else first := rfl
  rw [hmin, hmax]
  unfold Item.Accepts
  simp only [UInt8.le_iff_toNat_le]
  split <;> omega

theorem matchItems_of_items (h : Items cls items after) (ch : UInt8) (matched : Bool) (i : Nat)
    : ((matchItems ch cls matched i).1 = true
          ↔ matched = true ∨ ∃ item ∈ items, item.Accepts ch)
        ∧ ∃ consumed, (matchItems ch cls matched i).2 = i + consumed
          ∧ consumed ≤ cls.length ∧ cls.drop consumed = after := by
  induction h generalizing matched i with
  | unterminated =>
    refine ⟨by simp [matchItems], 0, ?_⟩
    simp [matchItems]
  | closed rest =>
    rw [matchItems_closed]
    refine ⟨by simp, 1, ?_⟩
    simp
  | escaped literal h ih =>
    rw [matchItems_escaped]
    rcases ih (matched || literal == ch) (i + 2) with ⟨hmatched, consumed, hconsumed, hle, hdrop⟩
    refine ⟨?_, consumed + 2, ?_, ?_, hdrop⟩
    . rw [hmatched, List.exists_mem_cons_iff, Bool.or_eq_true, beq_iff_eq, or_assoc]
      rfl
    . omega
    . simpa using hle
  | range hclose hescape hlast h ih =>
    rw [matchItems_range hclose hescape hlast]
    rcases ih (matched || _) (i + 3) with ⟨hmatched, consumed, hconsumed, hle, hdrop⟩
    refine ⟨?_, consumed + 3, ?_, ?_, hdrop⟩
    . rw [hmatched, List.exists_mem_cons_iff, Bool.or_eq_true, decide_eq_true_iff, or_assoc,
        accepts_range_iff]
    . omega
    . simpa using hle
  | one hclose hescape hrange h ih =>
    rw [matchItems_one hclose hescape hrange]
    rcases ih (matched || _) (i + 1) with ⟨hmatched, consumed, hconsumed, hle, hdrop⟩
    refine ⟨?_, consumed + 1, ?_, ?_, hdrop⟩
    . rw [hmatched, List.exists_mem_cons_iff, Bool.or_eq_true, beq_iff_eq, or_assoc]
      rfl
    . omega
    . simpa using hle

theorem exists_items (cls : List UInt8)
    : ∃ items after, Items cls items after ∧ after.length ≤ cls.length := by
  match cls with
  | [] => exact ⟨[], [], .unterminated, Nat.le_refl _⟩
  | first :: rest =>
    by_cases hclose : first = closeBracket
    . subst hclose
      exact ⟨[], rest, .closed rest, Nat.le_succ _⟩
    . match rest with
      | [] =>
        refine ⟨[.one first], [], .one hclose (fun _ => rfl) ?_ .unterminated, Nat.zero_le _⟩
        intro last more h
        cases h
      | second :: rest =>
        by_cases hescape : first = backslash
        . subst hescape
          rcases exists_items rest with ⟨items, after, h, hle⟩
          refine ⟨.one second :: items, after, .escaped second h, ?_⟩
          simp only [List.length_cons]
          omega
        . by_cases hrange : ∃ last more, second :: rest = dash :: last :: more ∧ last ≠ closeBracket
          . rcases hrange with ⟨last, more, heq, hlast⟩
            cases heq
            rcases exists_items more with ⟨items, after, h, hle⟩
            refine ⟨.range first last :: items, after, .range hclose hescape hlast h, ?_⟩
            simp only [List.length_cons]
            omega
          . rcases exists_items (second :: rest) with ⟨items, after, h, hle⟩
            refine ⟨.one first :: items, after, .one hclose (fun heq => absurd heq hescape) ?_ h, ?_⟩
            . intro last more heq
              by_contra hlast
              exact hrange ⟨last, more, heq, hlast⟩
            . simp only [List.length_cons] at hle ⊢
              omega
termination_by cls.length

theorem exists_class (cls : List UInt8)
    : ∃ negate items after, Class cls negate items after ∧ after.length ≤ cls.length := by
  by_cases hsign : ∃ sign rest, cls = sign :: rest ∧ (sign = caret ∨ sign = bang)
  . rcases hsign with ⟨sign, rest, rfl, hsign⟩
    rcases exists_items rest with ⟨items, after, h, hle⟩
    exact ⟨true, items, after, .negated hsign h, Nat.le_succ_of_le hle⟩
  . rcases exists_items cls with ⟨items, after, h, hle⟩
    refine ⟨false, items, after, .plain ?_ h, hle⟩
    rintro sign rest rfl
    exact not_or.mp fun heq => hsign ⟨sign, rest, rfl, heq⟩

theorem matchClass_of_class {negate : Bool} (h : Class cls negate items after) (ch : UInt8)
    : ((matchClass cls ch).1 = true ↔ (Token.oneOf negate items).Accepts ch)
        ∧ (matchClass cls ch).2 ≤ cls.length ∧ cls.drop (matchClass cls ch).2 = after := by
  cases h with
  | @negated sign rest _ _ hsign h =>
    rcases matchItems_of_items h ch false 1 with ⟨hmatched, consumed, hconsumed, hle, hdrop⟩
    have hnegate : ((sign :: rest).head? == some caret || (sign :: rest).head? == some bang) = true := by
      simpa using hsign
    unfold matchClass
    simp only [hnegate, if_true, List.tail_cons]
    refine ⟨?_, ?_, ?_⟩
    . simp only [Token.Accepts, bne_iff_ne, ne_eq, Bool.not_eq_true, Bool.true_eq_false, iff_false]
      rw [← Bool.not_eq_true, hmatched]
      simp
    . rw [hconsumed, List.length_cons]
      omega
    . rw [hconsumed, Nat.add_comm, List.drop_succ_cons, hdrop]
  | plain hsign h =>
    rcases matchItems_of_items h ch false 0 with ⟨hmatched, consumed, hconsumed, hle, hdrop⟩
    have hnegate : (cls.head? == some caret || cls.head? == some bang) = false := by
      cases cls with
      | nil => rfl
      | cons sign rest => simpa using hsign sign rest rfl
    unfold matchClass
    simp only [hnegate, Bool.false_eq_true, if_false]
    rw [hconsumed, Nat.zero_add]
    refine ⟨?_, hle, hdrop⟩
    rw [Bool.bne_false, hmatched]
    simp [Token.Accepts]

theorem exists_reads (pattern : List UInt8) : ∃ tokens, Reads pattern tokens := by
  match pattern with
  | [] => exact ⟨[], .nil⟩
  | token :: rest =>
    by_cases hspecial : token ∈ [star, questionMark, openBracket, backslash]
    . simp only [List.mem_cons, List.not_mem_nil, or_false] at hspecial
      rcases hspecial with rfl | rfl | rfl | rfl
      . rcases exists_reads rest with ⟨tokens, h⟩
        exact ⟨_, .star h⟩
      . rcases exists_reads rest with ⟨tokens, h⟩
        exact ⟨_, .questionMark h⟩
      . rcases exists_class rest with ⟨negate, items, after, hcls, hle⟩
        rcases exists_reads after with ⟨tokens, h⟩
        exact ⟨_, .cls hcls h⟩
      . match rest with
        | [] => exact ⟨_, .lone⟩
        | literal :: rest =>
          rcases exists_reads rest with ⟨tokens, h⟩
          exact ⟨_, .escaped literal h⟩
    . rcases exists_reads rest with ⟨tokens, h⟩
      exact ⟨_, .literal hspecial h⟩
termination_by pattern.length

theorem Items.unique {items' : List (Item UInt8)} {after' : List UInt8}
    (h : Items cls items after) (h' : Items cls items' after')
    : items = items' ∧ after = after' := by
  induction h generalizing items' after' with
  | unterminated =>
    cases h'
    exact ⟨rfl, rfl⟩
  | closed rest =>
    cases h' with
    | closed => exact ⟨rfl, rfl⟩
    | range hclose => exact absurd rfl hclose
    | one hclose => exact absurd rfl hclose
  | escaped literal h ih =>
    cases h' with
    | escaped _ h' =>
      rcases ih h' with ⟨rfl, rfl⟩
      exact ⟨rfl, rfl⟩
    | range _ hescape => exact absurd rfl hescape
    | one _ hescape => cases hescape rfl
  | range hclose hescape hlast h ih =>
    cases h' with
    | closed => exact absurd rfl hclose
    | escaped => exact absurd rfl hescape
    | range _ _ _ h' =>
      rcases ih h' with ⟨rfl, rfl⟩
      exact ⟨rfl, rfl⟩
    | one _ _ hrange => exact absurd (hrange _ _ rfl) hlast
  | one hclose hescape hrange h ih =>
    cases h' with
    | closed => exact absurd rfl hclose
    | escaped => cases hescape rfl
    | range _ _ hlast => exact absurd (hrange _ _ rfl) hlast
    | one _ _ _ h' =>
      rcases ih h' with ⟨rfl, rfl⟩
      exact ⟨rfl, rfl⟩

theorem Class.unique {negate negate' : Bool} {items' : List (Item UInt8)} {after' : List UInt8}
    (h : Class cls negate items after) (h' : Class cls negate' items' after')
    : negate = negate' ∧ items = items' ∧ after = after' := by
  cases h with
  | negated hsign h =>
    cases h' with
    | negated _ h' => exact ⟨rfl, h.unique h'⟩
    | plain hplain => exact absurd hsign (not_or.mpr (hplain _ _ rfl))
  | plain hplain h =>
    cases h' with
    | negated hsign => exact absurd hsign (not_or.mpr (hplain _ _ rfl))
    | plain _ h' => exact ⟨rfl, h.unique h'⟩

theorem Reads.unique {pattern : List UInt8} {tokens tokens' : List (Token UInt8)}
    (h : Reads pattern tokens) (h' : Reads pattern tokens')
    : tokens = tokens' := by
  induction h generalizing tokens' with
  | nil =>
    cases h'
    rfl
  | star h ih =>
    cases h' with
    | star h' => rw [ih h']
    | literal hliteral => simp at hliteral
  | questionMark h ih =>
    cases h' with
    | questionMark h' => rw [ih h']
    | literal hliteral => simp at hliteral
  | cls hcls h ih =>
    cases h' with
    | cls hcls' h' =>
      rcases hcls.unique hcls' with ⟨rfl, rfl, rfl⟩
      rw [ih h']
    | literal hliteral => simp at hliteral
  | escaped literal h ih =>
    cases h' with
    | escaped _ h' => rw [ih h']
    | literal hliteral => simp at hliteral
  | lone =>
    cases h' with
    | lone => rfl
    | literal hliteral => simp at hliteral
  | literal hliteral h ih =>
    cases h' with
    | literal _ h' => rw [ih h']
    | _ => simp at hliteral

/-
The matcher, token by token.
-/

variable {text : List UInt8}

theorem globMatchBytes_nil (text : List UInt8) : globMatchBytes [] text = text.isEmpty := by
  rw [globMatchBytes]

theorem globMatchBytes_star_of_ne (h : rest.head? ≠ some star)
    : globMatchBytes (star :: rest) text = text.tails.any fun tail => globMatchBytes rest tail := by
  rw [globMatchBytes.eq_def]
  dsimp only
  rw [if_pos rfl]
  cases rest with
  | nil =>
    simp [globMatchBytes_nil]
  | cons token rest =>
    have hne : token ≠ star := fun heq => h (congrArg some heq)
    simp [hne]

theorem globMatchBytes_star (rest text : List UInt8)
    : globMatchBytes (star :: rest) text = text.tails.any fun tail => globMatchBytes rest tail := by
  induction rest generalizing text with
  | nil => exact globMatchBytes_star_of_ne (by simp)
  | cons token rest ih =>
    by_cases hstar : token = star
    . subst hstar
      have hcollapse : globMatchBytes (star :: star :: rest) text = globMatchBytes (star :: rest) text := by
        rw [globMatchBytes.eq_def, globMatchBytes.eq_def]
        simp
      rw [hcollapse, Bool.eq_iff_iff, List.any_eq_true]
      simp only [ih, List.any_eq_true, List.mem_tails]
      constructor
      . rintro ⟨tail, hsuffix, hmatch⟩
        exact ⟨text, List.suffix_refl text, tail, hsuffix, hmatch⟩
      . rintro ⟨middle, hsuffix, tail, hsuffix', hmatch⟩
        exact ⟨tail, hsuffix'.trans hsuffix, hmatch⟩
    . apply globMatchBytes_star_of_ne
      intro heq
      exact hstar (Option.some.inj heq)

theorem globMatchBytes_questionMark
    : globMatchBytes (questionMark :: rest) text = true
        ↔
      ∃ ch next, text = ch :: next ∧ globMatchBytes rest next = true := by
  have hstar : questionMark ≠ star := by decide
  rw [globMatchBytes.eq_def]
  dsimp only
  rw [if_neg hstar, if_pos rfl]
  cases text with
  | nil => simp
  | cons ch next => simp

theorem globMatchBytes_class
    : globMatchBytes (openBracket :: rest) text = true
        ↔
      ∃ ch next, text = ch :: next ∧ (matchClass rest ch).1 = true
        ∧ globMatchBytes (rest.drop (matchClass rest ch).2) next = true := by
  have hstar : openBracket ≠ star := by decide
  have hquestion : openBracket ≠ questionMark := by decide
  rw [globMatchBytes.eq_def]
  dsimp only
  rw [if_neg hstar, if_neg hquestion, if_pos rfl]
  cases text with
  | nil => simp
  | cons ch next => simp

theorem globMatchBytes_backslash
    : globMatchBytes (backslash :: rest) text = true
        ↔
      ∃ ch next, text = ch :: next ∧ (escaped rest).1 = ch
        ∧ globMatchBytes (escaped rest).2 next = true := by
  have hstar : backslash ≠ star := by decide
  have hquestion : backslash ≠ questionMark := by decide
  have hbracket : backslash ≠ openBracket := by decide
  rw [globMatchBytes.eq_def]
  dsimp only
  rw [if_neg hstar, if_neg hquestion, if_neg hbracket, if_pos rfl]
  cases text with
  | nil => simp
  | cons ch next =>
    by_cases h : ch = (escaped rest).1
    . simp [h]
    . simp [h]

theorem globMatchBytes_literal {literal : UInt8}
    (hliteral : literal ∉ [star, questionMark, openBracket, backslash])
    : globMatchBytes (literal :: rest) text = true
        ↔
      ∃ ch next, text = ch :: next ∧ literal = ch ∧ globMatchBytes rest next = true := by
  simp only [List.mem_cons, List.not_mem_nil, or_false, not_or] at hliteral
  rcases hliteral with ⟨hstar, hquestion, hbracket, hbackslash⟩
  rw [globMatchBytes.eq_def]
  dsimp only
  rw [if_neg hstar, if_neg hquestion, if_neg hbracket, if_neg hbackslash]
  cases text with
  | nil => simp
  | cons ch next =>
    by_cases h : ch = literal
    . simp [h]
    . simp [h]

/--
The matcher decides the language of the tokens.
-/
theorem globMatchBytes_of_reads {pattern : List UInt8} {tokens : List (Token UInt8)}
    (h : Reads pattern tokens) (text : List UInt8)
    : globMatchBytes pattern text = true ↔ text ∈ Glob.language tokens := by
  induction h generalizing text with
  | nil => rw [globMatchBytes_nil, Glob.mem_language_nil, List.isEmpty_iff]
  | star h ih =>
    rw [globMatchBytes_star, Glob.mem_language_anyRun, List.any_eq_true]
    simp only [List.mem_tails, ih]
  | questionMark h ih =>
    rw [globMatchBytes_questionMark, Glob.mem_language_one (by simp)]
    simp only [ih, Token.Accepts, true_and]
  | @cls rest negate items after tokens hcls h ih =>
    rw [globMatchBytes_class, Glob.mem_language_one (by simp)]
    have hspec := matchClass_of_class hcls
    simp only [(hspec _).1, (hspec _).2.2, ih]
  | escaped literal h ih =>
    rw [globMatchBytes_backslash, Glob.mem_language_one (by simp)]
    simp only [escaped, ih, Token.Accepts]
  | lone =>
    rw [globMatchBytes_backslash, Glob.mem_language_one (by simp)]
    simp only [escaped, globMatchBytes_nil, List.isEmpty_iff, Glob.mem_language_nil, Token.Accepts]
  | literal hliteral h ih =>
    rw [globMatchBytes_literal hliteral, Glob.mem_language_one (by simp)]
    simp only [ih, Token.Accepts]

/-
The matcher with every index and every slice checked.
-/

/--
The loop of `matchClass` on indices into `cls`.
-/
def scanClass (cls : List UInt8) (ch : UInt8) (matched : Bool) (i : Nat) : Option (Bool × Nat) :=
  if i < cls.length then
    match cls[i]? with
    | none => none
    | some first =>
      if first = closeBracket then
        some (matched, i + 1)
      else if first = backslash ∧ i + 1 < cls.length then
        match cls[i + 1]? with
        | none => none
        | some literal => scanClass cls ch (matched || literal == ch) (i + 2)
      else if i + 2 < cls.length then
        match cls[i + 1]?, cls[i + 2]? with
        | some middle, some last =>
          if middle = dash ∧ last ≠ closeBracket then
            scanClass cls ch
              (matched || decide (min first last ≤ ch ∧ ch ≤ max first last)) (i + 3)
          else
            scanClass cls ch (matched || first == ch) (i + 1)
        | _, _ => none
      else
        scanClass cls ch (matched || first == ch) (i + 1)
  else
    some (matched, i)
termination_by cls.length - i

def matchClassIndexed (cls : List UInt8) (ch : UInt8) : Option (Bool × Nat) :=
  let negate := cls.head? == some caret || cls.head? == some bang
  (scanClass cls ch false (if negate then 1 else 0)).map fun (matched, consumed) =>
    (matched != negate, consumed)

/--
The loop over the tails of the text.
-/
def anyTail (matches? : List UInt8 → Option Bool) : List UInt8 → Option Bool
  | [] => matches? []
  | ch :: next =>
    match matches? (ch :: next) with
    | some false => anyTail matches? next
    | result => result

def globMatchIndexed (pattern text : List UInt8) : Option Bool :=
  match pattern with
  | [] => some text.isEmpty
  | token :: rest =>
    if token = star then
      let tailPattern := rest.dropWhile (· = star)
      if tailPattern.isEmpty then
        some true
      else
        anyTail (fun tailText => globMatchIndexed tailPattern tailText) text
    else if token = questionMark then
      match text with
      | _ :: next => globMatchIndexed rest next
      | [] => some false
    else if token = openBracket then
      match text with
      | ch :: next =>
        match matchClassIndexed rest ch with
        | none => none
        | some (matched, consumed) =>
          if matched then
            if consumed ≤ rest.length then globMatchIndexed (rest.drop consumed) next else none
          else
            some false
      | [] => some false
    else if token = backslash then
      match text with
      | ch :: next =>
        if ch = (escaped rest).1 then globMatchIndexed (escaped rest).2 next else some false
      | [] => some false
    else
      match text with
      | ch :: next => if ch = token then globMatchIndexed rest next else some false
      | [] => some false
termination_by pattern.length
decreasing_by
  . have := List.length_dropWhile_le (· = star) rest
    simp only [List.length_cons]
    omega
  . simp
  . simp only [List.length_drop, List.length_cons]
    omega
  . have := escaped_length_le rest
    simp only [List.length_cons]
    omega
  . simp

theorem drop_eq_cons {first : UInt8} (h : cls[i]? = some first)
    : cls.drop i = first :: cls.drop (i + 1) := by
  rw [List.getElem?_eq_some_iff] at h
  rcases h with ⟨hlt, rfl⟩
  exact List.drop_eq_getElem_cons hlt

theorem getElem?_ne_none (h : i < cls.length) : cls[i]? ≠ none := by
  rw [ne_eq, List.getElem?_eq_none_iff]
  omega

/--
Every index that the loop of a class uses is in bounds.
-/
theorem scanClass_eq (cls : List UInt8) (ch : UInt8) (matched : Bool) (i : Nat)
    : scanClass cls ch matched i = some (matchItems ch (cls.drop i) matched i) := by
  fun_induction scanClass cls ch matched i with
  | case1 matched i hlt hnone => exact absurd hnone (getElem?_ne_none hlt)
  | case2 matched i hlt hfirst => rw [drop_eq_cons hfirst, matchItems_closed]
  | case3 matched i hlt first hfirst hclose hescape hnone =>
    exact absurd hnone (getElem?_ne_none hescape.2)
  | case4 matched i hlt first hfirst hclose hescape literal hliteral ih =>
    rw [drop_eq_cons hfirst, drop_eq_cons hliteral, hescape.1, matchItems_escaped, ih]
  | case5 matched i hlt first hfirst hclose hescape hthird middle last hlast hmiddle hrange ih =>
    have hplain : first ≠ backslash := fun heq => hescape ⟨heq, by omega⟩
    rw [drop_eq_cons hfirst, drop_eq_cons hmiddle, drop_eq_cons hlast, hrange.1,
      matchItems_range hclose hplain hrange.2, ih]
  | case6 matched i hlt first hfirst hclose hescape hthird middle last hlast hmiddle hrange ih =>
    have hplain : first ≠ backslash := fun heq => hescape ⟨heq, by omega⟩
    rw [drop_eq_cons hfirst, matchItems_one hclose (fun heq => absurd heq hplain), ih]
    intro last' more heq
    rw [drop_eq_cons hmiddle, drop_eq_cons hlast] at heq
    cases heq
    by_contra hlast'
    exact hrange ⟨rfl, hlast'⟩
  | case7 matched i hlt first hfirst hclose hescape hthird hnone =>
    have hmiddle : i + 1 < cls.length := by omega
    exact (hnone cls[i + 1] cls[i + 2] (List.getElem?_eq_getElem hmiddle)
      (List.getElem?_eq_getElem hthird)).elim
  | case8 matched i hlt first hfirst hclose hescape hthird ih =>
    rw [drop_eq_cons hfirst, matchItems_one hclose _ _, ih]
    . intro heq
      apply List.drop_eq_nil_of_le
      by_contra hle
      exact hescape ⟨heq, by omega⟩
    . intro last more heq
      have hlength := congrArg List.length heq
      simp only [List.length_drop, List.length_cons] at hlength
      omega
  | case9 matched i hle =>
    rw [List.drop_eq_nil_of_le (by omega)]
    simp [matchItems]

theorem matchClassIndexed_eq (cls : List UInt8) (ch : UInt8)
    : matchClassIndexed cls ch = some (matchClass cls ch) := by
  unfold matchClassIndexed matchClass
  dsimp only
  rw [scanClass_eq, Option.map_some]
  generalize (cls.head? == some caret || cls.head? == some bang) = negate
  cases negate with
  | true => rw [if_pos rfl, if_pos rfl, List.drop_one]
  | false => rfl

theorem anyTail_eq (matches? : List UInt8 → Bool) (text : List UInt8)
    : anyTail (fun tail => some (matches? tail)) text = some (text.tails.any matches?) := by
  induction text with
  | nil => simp [anyTail]
  | cons ch next ih =>
    rw [anyTail, List.tails_cons, List.any_cons]
    cases hmatches : matches? (ch :: next) with
    | false => simp [ih]
    | true => simp

theorem matchClass_le (cls : List UInt8) (ch : UInt8) : (matchClass cls ch).2 ≤ cls.length := by
  rcases exists_class cls with ⟨negate, items, after, hcls, -⟩
  exact (matchClass_of_class hcls ch).2.1

/--
Every index and every slice of the matcher is in bounds.
-/
theorem globMatchIndexed_eq (pattern text : List UInt8)
    : globMatchIndexed pattern text = some (globMatchBytes pattern text) := by
  fun_induction globMatchBytes pattern text
  case case1 text => rw [globMatchIndexed]
  all_goals
    rw [globMatchIndexed.eq_def]
    dsimp only
  case case2 text rest tailPattern hempty => rw [if_pos rfl, if_pos hempty]
  case case3 text rest tailPattern hempty ih =>
    rw [if_pos rfl, if_neg hempty]
    simp only [tailPattern] at ih
    simp only [ih]
    exact anyTail_eq _ text
  case case6 rest ch next consumed hstar hquestion hclass ih =>
    have hle := matchClass_le rest ch
    rw [hclass] at hle
    rw [if_neg hstar, if_neg hquestion, if_pos rfl, matchClassIndexed_eq, hclass]
    dsimp only
    rw [if_pos rfl, if_pos hle, ih]
  case case7 rest ch next matched consumed hclass hmatched hstar hquestion =>
    rw [if_neg hstar, if_neg hquestion, if_pos rfl, matchClassIndexed_eq, hclass]
    dsimp only
    rw [if_neg hmatched]
  all_goals simp_all

/--
For every pattern and text the matcher returns with all its indices in bounds, the pattern reads as
tokens in exactly one way, and the result is whether the text belongs to the language of the pattern.
-/
theorem glob_exact (pattern text : List UInt8)
    : globMatchIndexed pattern text = some (globMatchBytes pattern text)
        ∧ (∃! tokens, Reads pattern tokens)
        ∧ (globMatchBytes pattern text = true ↔ text ∈ patternLanguage pattern) := by
  rcases exists_reads pattern with ⟨tokens, hreads⟩
  refine ⟨globMatchIndexed_eq pattern text, ⟨tokens, hreads, fun other h => h.unique hreads⟩, ?_⟩
  rw [globMatchBytes_of_reads hreads]
  constructor
  . intro hmem
    exact ⟨tokens, hreads, hmem⟩
  . rintro ⟨other, hother, hmem⟩
    rwa [hother.unique hreads] at hmem

end RedisClone
