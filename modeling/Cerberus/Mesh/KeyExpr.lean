import Cerberus.Foundation.Path

/-!
# Key expressions

The key expressions of the mesh (`daemon/mesh/keyexpr.go`). A key is cut into chunks at its slashes;
an expression is such a list too, in which `*` stands for one chunk and `**` for any number of them.
`Matches` says what an expression means: the chunks of the key can be grouped so that every chunk of
the expression stands for its group (`matchChunks_iff`).

`matchChunks` is a total function; `search` is the loop and the calls of the source as they are,
with a bound on how many of them may be nested. It ends and gives what `matchChunks` gives
(`search_eq`).
-/

namespace Cerberus.Mesh

open Foundation

def splitKey (s : GoString) : List GoString :=
  let t := GoString.trimRightSlashes ⟨s.bytes.dropWhile (· == 0x2F)⟩
  if t = .lit "" then [] else t.segments.map GoString.mk

def matchChunks : List GoString → List GoString → Bool
  | [], key => key.isEmpty
  | p :: pat, key =>
    if p = .lit "**" then
      if pat = [] then true
      -- for i := 0; i <= len(key); i++
      else key.tails.any fun rest => matchChunks pat rest
    else
      match key with
      | [] => false
      | k :: key => (p = .lit "*" || p = k) && matchChunks pat key

def matchKey (expr key : GoString) : Bool := matchChunks (splitKey expr) (splitKey key)

/-- The chunk of an expression stands for a group of chunks of a key. -/
def StandsFor (p : GoString) (group : List GoString) : Prop :=
  if p = .lit "**" then True else if p = .lit "*" then group.length = 1 else group = [p]

/-- The chunks of the key can be grouped so that every chunk of the expression stands for its
group. -/
def Matches (pat key : List GoString) : Prop :=
  ∃ groups : List (List GoString), groups.flatten = key ∧ List.Forall₂ StandsFor pat groups

variable {pat key : List GoString} {p : GoString}

@[simp] lemma matches_nil : Matches [] key ↔ key = [] := by
  constructor
  · rintro ⟨groups, rfl, h⟩
    cases h
    rfl
  · rintro rfl
    exact ⟨[], rfl, .nil⟩

lemma matches_cons : Matches (p :: pat) key ↔
    ∃ group rest, key = group ++ rest ∧ StandsFor p group ∧ Matches pat rest := by
  constructor
  · rintro ⟨groups, rfl, h⟩
    cases h with
    | @cons _ group _ groups hp hrest =>
      exact ⟨group, groups.flatten, List.flatten_cons, hp, groups, rfl, hrest⟩
  · rintro ⟨group, rest, rfl, hp, groups, rfl, hrest⟩
    exact ⟨group :: groups, List.flatten_cons, .cons hp hrest⟩

lemma matches_deep : Matches (.lit "**" :: pat) key ↔ ∃ rest ∈ key.tails, Matches pat rest := by
  rw [matches_cons]
  simp only [List.mem_tails, StandsFor, if_true, true_and]
  constructor
  · rintro ⟨group, rest, rfl, hrest⟩
    exact ⟨rest, List.suffix_append _ _, hrest⟩
  · rintro ⟨rest, ⟨group, rfl⟩, hrest⟩
    exact ⟨group, rest, rfl, hrest⟩

lemma matches_chunk (hp : p ≠ .lit "**") : Matches (p :: pat) key ↔
    ∃ k rest, key = k :: rest ∧ (p = .lit "*" ∨ p = k) ∧ Matches pat rest := by
  rw [matches_cons]
  simp only [StandsFor, if_neg hp]
  constructor
  · rintro ⟨group, rest, rfl, hgroup, hrest⟩
    split_ifs at hgroup with hstar
    · obtain ⟨k, rfl⟩ := List.length_eq_one_iff.mp hgroup
      exact ⟨k, rest, rfl, .inl hstar, hrest⟩
    · subst hgroup
      exact ⟨p, rest, rfl, .inr rfl, hrest⟩
  · rintro ⟨k, rest, rfl, hk, hrest⟩
    refine ⟨[k], rest, rfl, ?_, hrest⟩
    split_ifs with hstar
    · rfl
    · rw [hk.resolve_left hstar]

/-- The matcher decides what expressions mean. -/
theorem matchChunks_iff (pat key : List GoString) :
    matchChunks pat key = true ↔ Matches pat key := by
  induction pat generalizing key with
  | nil => rw [matchChunks, matches_nil, List.isEmpty_iff]
  | cons p pat ih =>
    rw [matchChunks.eq_def]
    by_cases hdeep : p = .lit "**"
    · subst hdeep
      simp only [if_true, matches_deep]
      by_cases hlast : pat = []
      · subst hlast
        rw [if_pos rfl]
        exact iff_of_true rfl ⟨[], by simp, matches_nil.mpr rfl⟩
      · rw [if_neg hlast, List.any_eq_true]
        exact exists_congr fun rest => and_congr_right fun _ => ih rest
    · simp only [if_neg hdeep, matches_chunk hdeep]
      cases key with
      | nil => simp
      | cons k key =>
        simp only [Bool.and_eq_true, Bool.or_eq_true, decide_eq_true_eq, ih, List.cons.injEq]
        constructor
        · rintro ⟨hk, hrest⟩
          exact ⟨k, key, ⟨rfl, rfl⟩, hk, hrest⟩
        · rintro ⟨k', rest, ⟨rfl, rfl⟩, hk, hrest⟩
          exact ⟨hk, hrest⟩

/-! ### The search -/

/-- `for i := 0; i <= len(key); i++`: try the ends of a key until one of them matches. -/
def tryEnds (call : List GoString → Option Bool) : List (List GoString) → Option Bool
  | [] => some false
  | rest :: ends =>
    match call rest with
    | none => none
    | some true => some true
    | some false => tryEnds call ends

/-- `matchChunks` with at most this many rounds of the loop and calls inside one another; `none`
means that more are needed. -/
def search : ℕ → List GoString → List GoString → Option Bool
  | 0, _, _ => none
  | _ + 1, [], key => some key.isEmpty
  | n + 1, p :: pat, key =>
    if p = .lit "**" then
      if pat = [] then some true else tryEnds (search n pat) key.tails
    else
      match key with
      | [] => some false
      | k :: key => if p = .lit "*" ∨ p = k then search n pat key else some false

lemma tryEnds_eq {call : List GoString → Option Bool} {f : List GoString → Bool}
    (h : ∀ rest, call rest = some (f rest)) (ends : List (List GoString)) :
    tryEnds call ends = some (ends.any f) := by
  induction ends with
  | nil => rfl
  | cons rest ends ih =>
    rw [tryEnds, h, List.any_cons]
    by_cases hrest : f rest = true
    · rw [hrest, Bool.true_or]
    · rw [Bool.eq_false_of_not_eq_true hrest, Bool.false_or]
      exact ih

/-- The search comes to an end within one round for each chunk of the expression. -/
theorem search_eq {n : ℕ} (h : pat.length < n) (key : List GoString) :
    search n pat key = some (matchChunks pat key) := by
  induction pat generalizing n key with
  | nil =>
    obtain ⟨n, rfl⟩ := Nat.exists_eq_add_of_lt h
    rfl
  | cons p pat ih =>
    obtain ⟨n, rfl⟩ : ∃ m, n = m + 1 := ⟨n - 1, by omega⟩
    have hcall : ∀ rest, search n pat rest = some (matchChunks pat rest) :=
      ih (Nat.lt_of_succ_lt_succ h)
    rw [search.eq_def, matchChunks.eq_def]
    by_cases hdeep : p = .lit "**"
    · simp only [if_pos hdeep]
      split_ifs
      · rfl
      · exact tryEnds_eq hcall key.tails
    · simp only [if_neg hdeep]
      obtain _ | ⟨k, key⟩ := key
      · rfl
      · by_cases hk : p = .lit "*" ∨ p = k
        · simp only [if_pos hk, hcall, ← Bool.decide_or, decide_eq_true hk, Bool.true_and]
        · simp only [if_neg hk, ← Bool.decide_or, decide_eq_false hk, Bool.false_and]

/-- `MatchKey` decides what key expressions mean, by a search that always comes to an end. -/
theorem matchKey_iff (expr key : GoString) :
    (matchKey expr key = true ↔ Matches (splitKey expr) (splitKey key)) ∧
      ∀ n, search ((splitKey expr).length + 1 + n) (splitKey expr) (splitKey key) =
        some (matchKey expr key) := by
  refine ⟨matchChunks_iff _ _, fun n => search_eq ?_ _⟩
  omega

example : matchKey (.lit "cerberus/*/telemetry/**")
    (.lit "/cerberus/site-a/telemetry/p/1/") = true := by
  decide +kernel

example : matchKey (.lit "a/*/b") (.lit "a/b") = false := by decide +kernel

end Cerberus.Mesh
