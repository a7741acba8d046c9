import FilterQuery.Text.Glob
import Mathlib.Data.List.Basic

/-!
# What a glob pattern stands for

A text follows a pattern if it is the pattern with a run of characters put in the place of each
star.  A match only ever goes back to the last star that it has passed.  That is enough, because a
star takes up whatever lies between the first place that it can stand at and any later one.  Each
step of a match keeps what it has to decide, stays inside the text and the pattern, and brings the
match nearer to its end.
-/

namespace FilterQuery.Text.Glob

variable {text pattern : List Char}

/-! ## Texts that follow a pattern -/

/-- A pattern with its stars replaced, from left to right, by the given runs. -/
def fill : List Char → List (List Char) → List Char
  | [], _ => []
  | c :: pattern, runs =>
      if c = '*' then runs.headD [] ++ fill pattern runs.tail else c :: fill pattern runs

/-- A text is a pattern with its stars replaced by some runs of characters. -/
def Follows (text pattern : List Char) : Prop :=
  ∃ runs, fill pattern runs = text

@[simp]
theorem follows_nil_iff : Follows text [] ↔ text = [] := by
  simp [Follows, fill, eq_comm]

theorem follows_star_iff :
    Follows text ('*' :: pattern) ↔ ∃ run rest, text = run ++ rest ∧ Follows rest pattern := by
  constructor
  · rintro ⟨runs, rfl⟩
    exact ⟨runs.headD [], fill pattern runs.tail, by simp [fill], runs.tail, rfl⟩
  · rintro ⟨run, _, rfl, runs, rfl⟩
    exact ⟨run :: runs, by simp [fill]⟩

theorem follows_cons_iff {c : Char} (plain : c ≠ '*') :
    Follows text (c :: pattern) ↔ ∃ rest, text = c :: rest ∧ Follows rest pattern := by
  constructor
  · rintro ⟨runs, rfl⟩
    exact ⟨fill pattern runs, by simp [fill, plain], runs, rfl⟩
  · rintro ⟨_, rfl, runs, rfl⟩
    exact ⟨runs, by simp [fill, plain]⟩

/-- Characters of the pattern in front of the first star have to open the text. -/
theorem follows_append_iff {literal : List Char} (plain : '*' ∉ literal) :
    Follows text (literal ++ pattern) ↔ ∃ rest, text = literal ++ rest ∧ Follows rest pattern := by
  induction literal generalizing text with
  | nil => simp
  | cons c literal ih =>
      rcases not_or.mp (mt List.mem_cons.mpr plain) with ⟨differs, others⟩
      rw [List.cons_append, follows_cons_iff (Ne.symm differs)]
      constructor
      · rintro ⟨_, rfl, opened⟩
        rcases (ih others).mp opened with ⟨rest, rfl, behind⟩
        exact ⟨rest, rfl, behind⟩
      · rintro ⟨rest, rfl, behind⟩
        exact ⟨literal ++ rest, rfl, (ih others).mpr ⟨rest, rfl, behind⟩⟩

/-- The empty text follows the patterns of stars alone. -/
theorem nil_follows_iff : Follows [] pattern ↔ ∀ c ∈ pattern, c = '*' := by
  induction pattern with
  | nil => simp
  | cons c pattern ih =>
      by_cases star : c = '*'
      · subst star
        simp [follows_star_iff, ih]
      · simp [follows_cons_iff star, star]

/-- A star in front takes up any further characters. -/
theorem Follows.behind (follows : Follows text ('*' :: pattern)) (run : List Char) :
    Follows (run ++ text) ('*' :: pattern) := by
  rcases follows_star_iff.mp follows with ⟨more, rest, rfl, behind⟩
  exact follows_star_iff.mpr ⟨run ++ more, rest, (List.append_assoc _ _ _).symm, behind⟩

/-- A star for which the empty run does not do stands for one character at least. -/
theorem follows_star_cons_iff {d : Char} (mismatch : ¬ Follows (d :: text) pattern) :
    Follows (d :: text) ('*' :: pattern) ↔ Follows text ('*' :: pattern) := by
  constructor
  · intro follows
    rcases follows_star_iff.mp follows with ⟨run, rest, text_eq, behind⟩
    cases run with
    | nil =>
        rw [List.nil_append] at text_eq
        exact absurd (text_eq ▸ behind) mismatch
    | cons e run =>
        cases text_eq
        exact follows_star_iff.mpr ⟨run, rest, rfl, behind⟩
  · exact fun follows => follows.behind [d]

/-- Behind a star, characters that stand for themselves may as well be found at the first place:
where another star follows them, or the text ends with them, no other place does better. -/
theorem follows_star_literal_iff {literal rest : List Char} (plain : '*' ∉ literal)
    (last : rest = [] ∨ ∃ more, pattern = '*' :: more) :
    Follows (literal ++ rest) ('*' :: (literal ++ pattern)) ↔ Follows rest pattern := by
  constructor
  · intro follows
    rcases follows_star_iff.mp follows with ⟨run, _, text_eq, opened⟩
    rcases (follows_append_iff plain).mp opened with ⟨found, rfl, behind⟩
    -- what is left behind a later place is the end of what is left behind the first one
    have suffix : found <:+ rest := by
      have ends : found <:+ literal ++ rest :=
        ⟨run ++ literal, by rw [text_eq, List.append_assoc]⟩
      have length_eq := congrArg List.length text_eq
      simp only [List.length_append] at length_eq
      exact List.suffix_of_suffix_length_le ends (List.suffix_append literal rest) (by omega)
    rcases last with rfl | ⟨more, rfl⟩
    · rwa [← List.suffix_nil.mp suffix]
    · rcases suffix with ⟨front, rfl⟩
      exact behind.behind front
  · intro behind
    exact follows_star_iff.mpr
      ⟨[], literal ++ rest, rfl, (follows_append_iff plain).mpr ⟨rest, rfl, behind⟩⟩

/-! ## Cursors -/

/-- A cursor with a rest of the text and a rest of the pattern in front of it.  Since the last star,
or since the start, the same characters have been passed in both. -/
inductive Cursor.At (text pattern rest more : List Char) (cursor : Cursor) : Prop
  | unstarred {literal : List Char} (plain : '*' ∉ literal) (text_eq : text = literal ++ rest)
      (pattern_eq : pattern = literal ++ more) (star_eq : cursor.star = none)
      (text_place : cursor.text = literal.length)
      (pattern_place : cursor.pattern = literal.length)
  | starred {taken front literal : List Char} (plain : '*' ∉ literal)
      (text_eq : text = taken ++ (literal ++ rest))
      (pattern_eq : pattern = front ++ '*' :: (literal ++ more))
      (star_eq : cursor.star = some ⟨front.length, taken.length⟩)
      (text_place : cursor.text = taken.length + literal.length)
      (pattern_place : cursor.pattern = front.length + 1 + literal.length)
      (decides : Follows text pattern ↔ Follows (literal ++ rest) ('*' :: (literal ++ more)))

/-- How far the last star and what it stands for reach; a match never falls back behind it. -/
def Cursor.passed (cursor : Cursor) : Nat :=
  match cursor.star with
  | some star => star.place + 1 + star.reach
  | none => 0

/-- A bound on the steps that are left to a match. -/
def Cursor.rank (text pattern : List Char) (cursor : Cursor) : Nat :=
  (text.length + pattern.length - cursor.passed) * (pattern.length + 1) +
    (pattern.length - cursor.pattern)

namespace Cursor.At

variable {rest more : List Char} {cursor : Cursor}

theorem start : Cursor.start.At text pattern text pattern :=
  .unstarred List.not_mem_nil rfl rfl rfl rfl rfl

/-- The cursor is between what has been passed and what is left. -/
theorem exists_append (at_rest : cursor.At text pattern rest more) :
    ∃ done passed, text = done ++ rest ∧ pattern = passed ++ more ∧
      cursor.text = done.length ∧ cursor.pattern = passed.length := by
  cases at_rest with
  | unstarred _ text_eq pattern_eq _ text_place pattern_place =>
      exact ⟨_, _, text_eq, pattern_eq, text_place, pattern_place⟩
  | @starred taken front literal _ text_eq pattern_eq _ text_place pattern_place _ =>
      refine ⟨taken ++ literal, front ++ '*' :: literal, ?_, ?_, ?_, ?_⟩
      · rw [text_eq, List.append_assoc]
      · rw [pattern_eq, List.append_assoc, List.cons_append]
      · rw [text_place, List.length_append]
      · rw [pattern_place, List.length_append, List.length_cons]
        omega

/-- The cursor is inside the text and the pattern. -/
theorem lengths_eq (at_rest : cursor.At text pattern rest more) :
    cursor.text + rest.length = text.length ∧ cursor.pattern + more.length = pattern.length := by
  rcases at_rest.exists_append with ⟨done, passed, rfl, rfl, text_place, pattern_place⟩
  rw [text_place, pattern_place, List.length_append, List.length_append]
  exact ⟨rfl, rfl⟩

/-- The last star and its run lie in front of the cursor. -/
theorem passed_le (at_rest : cursor.At text pattern rest more) :
    cursor.passed ≤ cursor.text + cursor.pattern := by
  cases at_rest with
  | unstarred _ _ _ star_eq => simp [Cursor.passed, star_eq]
  | starred _ _ _ star_eq text_place pattern_place =>
      simp only [Cursor.passed, star_eq]
      omega

/-- A match that moves its last star on comes nearer to its end, wherever it starts again. -/
theorem rank_lt_of_passed_lt {before : Cursor} (at_rest : cursor.At text pattern rest more)
    (further : before.passed < cursor.passed) :
    cursor.rank text pattern < before.rank text pattern := by
  have fewer : text.length + pattern.length - cursor.passed + 1 ≤
      text.length + pattern.length - before.passed := by
    have inside := at_rest.passed_le
    have lengths := at_rest.lengths_eq
    omega
  calc cursor.rank text pattern
      < (text.length + pattern.length - cursor.passed) * (pattern.length + 1) +
          (pattern.length + 1) := by
        unfold Cursor.rank
        omega
    _ = (text.length + pattern.length - cursor.passed + 1) * (pattern.length + 1) :=
        (Nat.succ_mul _ _).symm
    _ ≤ (text.length + pattern.length - before.passed) * (pattern.length + 1) :=
        Nat.mul_le_mul_right _ fewer
    _ ≤ before.rank text pattern := Nat.le_add_right _ _

/-- At the end of the text, and in front of a star, what is left decides. -/
theorem follows_iff (at_rest : cursor.At text pattern rest more)
    (last : rest = [] ∨ ∃ others, more = '*' :: others) :
    Follows text pattern ↔ Follows rest more := by
  cases at_rest with
  | @unstarred literal plain text_eq pattern_eq =>
      rw [text_eq, pattern_eq, follows_append_iff plain]
      simp
  | starred plain _ _ _ _ _ decides => exact decides.trans (follows_star_literal_iff plain last)

/-- Passing a star keeps what is to be decided. -/
theorem passStar (at_rest : cursor.At text pattern rest ('*' :: more)) :
    cursor.passStar.At text pattern rest more := by
  have decides := at_rest.follows_iff (.inr ⟨more, rfl⟩)
  rcases at_rest.exists_append with ⟨done, passed, text_eq, pattern_eq, text_place, pattern_place⟩
  exact .starred List.not_mem_nil text_eq pattern_eq
    (by rw [Cursor.passStar, text_place, pattern_place]) text_place
    (by rw [Cursor.passStar, pattern_place, List.length_nil]) decides

/-- So does passing the same character in the text and in the pattern. -/
theorem takeChar {c : Char} (differs : c ≠ '*')
    (at_rest : cursor.At text pattern (c :: rest) (c :: more)) :
    cursor.takeChar.At text pattern rest more := by
  cases at_rest with
  | @unstarred literal plain text_eq pattern_eq star_eq text_place pattern_place =>
      have plain_more : '*' ∉ literal ++ [c] := by simp [plain, differs.symm]
      refine .unstarred plain_more ?_ ?_ star_eq ?_ ?_
      · simpa using text_eq
      · simpa using pattern_eq
      · simp [Cursor.takeChar, text_place]
      · simp [Cursor.takeChar, pattern_place]
  | @starred taken front literal plain text_eq pattern_eq star_eq text_place pattern_place decides =>
      have plain_more : '*' ∉ literal ++ [c] := by simp [plain, differs.symm]
      refine .starred plain_more ?_ ?_ star_eq ?_ ?_ ?_
      · simpa using text_eq
      · simpa using pattern_eq
      · simp [Cursor.takeChar, text_place, Nat.add_assoc]
      · simp [Cursor.takeChar, pattern_place, Nat.add_assoc]
      · simpa using decides

/-- Where the characters in front of the cursor do not fit, the last star has to stand for more,
if there is one. -/
theorem retry_cases {d : Char} (at_rest : cursor.At text pattern (d :: rest) more)
    (mismatch : ¬ Follows (d :: rest) more) :
    cursor.retry = .stopped false ∧ ¬ Follows text pattern ∨
      ∃ next left others, cursor.retry = .matching next ∧ next.At text pattern left others ∧
        cursor.passed < next.passed := by
  cases at_rest with
  | @unstarred literal plain text_eq pattern_eq star_eq =>
      refine .inl ⟨by rw [Cursor.retry, star_eq], ?_⟩
      rw [text_eq, pattern_eq, follows_append_iff plain]
      rintro ⟨_, rest_eq, follows⟩
      exact mismatch (List.append_cancel_left rest_eq ▸ follows)
  | @starred taken front literal plain text_eq pattern_eq star_eq text_place pattern_place decides =>
      have unfit : ¬ Follows (literal ++ d :: rest) (literal ++ more) := by
        rw [follows_append_iff plain]
        rintro ⟨_, rest_eq, follows⟩
        exact mismatch (List.append_cancel_left rest_eq ▸ follows)
      obtain ⟨e, left, left_eq⟩ : ∃ e left, literal ++ d :: rest = e :: left :=
        List.exists_cons_of_ne_nil (by simp)
      rw [left_eq] at text_eq decides unfit
      have text_eq_append : text = (taken ++ [e]) ++ ([] ++ left) := by simpa using text_eq
      refine .inr ⟨_, left, literal ++ more, by rw [Cursor.retry, star_eq], ?_, ?_⟩
      · exact .starred List.not_mem_nil text_eq_append pattern_eq (by simp) (by simp) rfl
          (decides.trans (follows_star_cons_iff unfit))
      · simp [Cursor.passed, star_eq]

end Cursor.At

/-! ## Steps -/

/-- What a step does, seen from what is left of the text and of the pattern. -/
def turn (cursor : Cursor) : List Char → List Char → Progress
  | [], more => .stopped (more.all fun c => c = '*')
  | _ :: _, [] => cursor.retry
  | d :: _, c :: _ =>
      if c = '*' then .matching cursor.passStar
      else if c = d then .matching cursor.takeChar
      else cursor.retry

/-- Inside the text and the pattern a step reads what is left of them and nothing else. -/
theorem step_eq_turn {done rest passed more : List Char} {cursor : Cursor}
    (text_place : cursor.text = done.length) (pattern_place : cursor.pattern = passed.length) :
    step (done ++ rest).toArray (passed ++ more).toArray cursor = turn cursor rest more := by
  unfold step read
  cases rest with
  | nil => simp [turn, text_place, pattern_place]
  | cons d rest =>
      cases more with
      | nil => simp [turn, text_place, pattern_place]
      | cons c more => simp [turn, text_place, pattern_place]

/-- How far a match may have come after some steps: it is at a place of the text and the pattern
and has fewer steps left, or it has stopped with the right answer. -/
def Progress.Sound (text pattern : List Char) (steps rank : Nat) : Progress → Prop
  | .matching next =>
      (∃ rest more, next.At text pattern rest more) ∧ next.rank text pattern + steps ≤ rank
  | .stopped matched => matched = true ↔ Follows text pattern
  | .outside => False

/-- One step and then some more. -/
theorem Progress.Sound.later {steps before after : Nat} {progress : Progress}
    (sound : progress.Sound text pattern steps after) (nearer : after + 1 ≤ before) :
    progress.Sound text pattern (steps + 1) before := by
  cases progress with
  | matching next =>
      rcases sound with ⟨within, rank_le⟩
      exact ⟨within, by omega⟩
  | stopped matched => exact sound
  | outside => exact sound

/-- Going back to the last star is sound where the characters in front of the cursor do not fit. -/
theorem Cursor.At.retry_sound {cursor : Cursor} {d : Char} {rest more : List Char}
    (at_rest : cursor.At text pattern (d :: rest) more) (mismatch : ¬ Follows (d :: rest) more) :
    cursor.retry.Sound text pattern 1 (cursor.rank text pattern) := by
  rcases at_rest.retry_cases mismatch with
    ⟨stopped, refused⟩ | ⟨next, left, others, goes, at_left, further⟩
  · rw [stopped]
    exact iff_of_false Bool.false_ne_true refused
  · rw [goes]
    exact ⟨⟨left, others, at_left⟩, at_left.rank_lt_of_passed_lt further⟩

/-- Each step is sound. -/
theorem Cursor.At.step_sound {cursor : Cursor} {rest more : List Char}
    (at_rest : cursor.At text pattern rest more) :
    (step text.toArray pattern.toArray cursor).Sound text pattern 1
      (cursor.rank text pattern) := by
  have step_eq : step text.toArray pattern.toArray cursor = turn cursor rest more := by
    rcases at_rest.exists_append with ⟨done, passed, text_eq, pattern_eq, places⟩
    rw [text_eq, pattern_eq]
    exact step_eq_turn places.1 places.2
  rw [step_eq]
  cases rest with
  | nil =>
      rw [turn, Progress.Sound, at_rest.follows_iff (.inl rfl), nil_follows_iff]
      simp
  | cons d rest =>
      cases more with
      | nil => exact at_rest.retry_sound (by simp)
      | cons c more =>
          by_cases star : c = '*'
          · subst star
            have further : cursor.passed < cursor.passStar.passed := by
              have inside := at_rest.passed_le
              simp only [Cursor.passed, Cursor.passStar] at inside ⊢
              omega
            exact ⟨⟨_, _, at_rest.passStar⟩, at_rest.passStar.rank_lt_of_passed_lt further⟩
          · by_cases same : c = d
            · subst same
              rw [turn, if_neg star, if_pos rfl]
              refine ⟨⟨_, _, at_rest.takeChar star⟩, ?_⟩
              have inside := at_rest.lengths_eq.2
              rw [List.length_cons] at inside
              simp only [Cursor.rank, Cursor.passed, Cursor.takeChar]
              omega
            · rw [turn, if_neg star, if_neg same]
              apply at_rest.retry_sound
              rw [follows_cons_iff star]
              rintro ⟨_, text_eq, -⟩
              cases text_eq
              exact same rfl

/-- A run of steps is sound. -/
theorem run_sound (steps : Nat) {cursor : Cursor}
    (within : ∃ rest more, cursor.At text pattern rest more) :
    (run text.toArray pattern.toArray steps cursor).Sound text pattern steps
      (cursor.rank text pattern) := by
  induction steps generalizing cursor with
  | zero => exact ⟨within, Nat.le_refl _⟩
  | succ steps ih =>
      rcases within with ⟨rest, more, at_rest⟩
      have sound := at_rest.step_sound
      rw [run]
      split
      · rename_i next step_eq
        rw [step_eq] at sound
        rcases sound with ⟨within_next, rank_lt⟩
        exact (ih within_next).later rank_lt
      · rename_i matched step_eq
        rwa [step_eq] at sound
      · rename_i step_eq
        rwa [step_eq] at sound

theorem rank_start (text pattern : List Char) :
    Cursor.start.rank text pattern < enoughSteps text.toArray pattern.toArray := by
  rw [enoughSteps, Nat.succ_mul]
  simp only [Cursor.rank, Cursor.passed, Cursor.start, Nat.sub_zero, List.size_toArray]
  omega

/-- Every match stops with the right answer. -/
theorem exists_run_eq_stopped (text pattern : List Char) :
    ∃ matched, (matched = true ↔ Follows text pattern) ∧
      ∀ steps, enoughSteps text.toArray pattern.toArray ≤ steps →
        run text.toArray pattern.toArray steps .start = .stopped matched := by
  classical
  refine ⟨decide (Follows text pattern), decide_eq_true_iff, ?_⟩
  intro steps enough
  have at_start : Cursor.start.At text pattern text pattern := .start
  have sound := run_sound steps ⟨_, _, at_start⟩
  have rank_lt := rank_start text pattern
  generalize run text.toArray pattern.toArray steps .start = progress at sound ⊢
  cases progress with
  | matching next =>
      have rank_le := sound.2
      omega
  | stopped matched => rw [Bool.eq_iff_iff.mpr (sound.trans decide_eq_true_iff.symm)]
  | outside => exact sound.elim

/-- A match never reads a place outside the text or the pattern.  It stops, after a number of steps
that is at most quadratic, and it accepts the texts that are the pattern with its stars replaced by
runs of characters. -/
theorem accepts_iff_exists_fill (text pattern : String) :
    let progress (steps : Nat) : Progress :=
      run text.toList.toArray pattern.toList.toArray steps .start
    (∀ steps, progress steps ≠ .outside) ∧
      (∀ steps, enoughSteps text.toList.toArray pattern.toList.toArray ≤ steps →
        progress steps = .stopped (accepts text pattern)) ∧
      (accepts text pattern = true ↔ ∃ runs, fill pattern.toList runs = text.toList) := by
  intro progress
  rcases exists_run_eq_stopped text.toList pattern.toList with ⟨matched, matched_iff, stops⟩
  have accepts_eq : accepts text pattern = matched := by
    simp only [accepts, stops _ (Nat.le_refl _)]
  rw [accepts_eq]
  refine ⟨?_, stops, matched_iff⟩
  intro steps outside
  have at_start : Cursor.start.At text.toList pattern.toList text.toList pattern.toList := .start
  have sound : (progress steps).Sound text.toList pattern.toList steps _ :=
    run_sound steps ⟨_, _, at_start⟩
  rw [outside] at sound
  exact sound

example : accepts "aabaabac" "*aab*a*c" = true := by decide +kernel

end FilterQuery.Text.Glob
