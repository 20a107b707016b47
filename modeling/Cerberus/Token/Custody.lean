import Cerberus.Foundation.Base64
import Cerberus.Foundation.Run

/-!
# Custody of the issuer's seed

The seed of the issuer is kept in a file or in the keychain of the operating system (`daemon/auth`:
`custody.go`, `LoadOrCreateSeed` of `auth.go`). A call that finds the keychain usable moves the seed
there and removes the file. A later call that cannot read the keychain then finds no seed at all,
and makes a new one: the issuer is another one.

What a call does not determine itself is in its `Env`: which calls of the keyring fail, what the
file system does, and the random bytes. Between calls nothing else touches the file or the entry.
-/

namespace Cerberus.Custody

open Foundation Option

abbrev Seed := Vector UInt8 32

inductive CustodyKind
  | keychain
  | file
  deriving DecidableEq

inductive Err
  | rand
  | mkdir
  | write
  deriving DecidableEq

/-- Where seeds are kept: the file at the path, and the keychain entry that belongs to it. -/
structure Stores where
  file : Option (List UInt8)
  entry : Option GoString

inductive SetOutcome
  | stored
  /-- An error, whether or not the value was stored. -/
  | failed (stored : Bool)
  deriving DecidableEq

inductive WriteOutcome
  | written
  | refused
  /-- The file was truncated and not all of the seed written. -/
  | torn (n : Fin 32)
  deriving DecidableEq

/-- What a call does not determine itself. -/
structure Env where
  probeName : Bool
  probeSet : Bool
  probeGet : Option GoString
  /-- `keyring.Get` of the entry succeeds, if there is one. -/
  get : Bool
  set : SetOutcome
  /-- The second `keyring.Get` of the entry succeeds, if there is one. -/
  confirm : Bool
  read : Bool
  fresh : Option Seed
  /-- The directory of the file exists or could be made. -/
  mkdir : Bool
  write : WriteOutcome
  remove : Bool

/-- The probe of the keychain succeeds. -/
def Env.available (e : Env) : Bool :=
  e.probeName && e.probeSet && decide (e.probeGet = some (.lit "cerberus-probe"))

def seedIn (b : List UInt8) : Option Seed :=
  if h : 32 ≤ b.length then some ⟨(b.take 32).toArray, by simp [h]⟩ else none

def seedOf (enc : GoString) : Option Seed := (Base64.stdDecode enc).bind seedIn

/-- The seed in the file. -/
def Stores.fileSeed (s : Stores) : Option Seed := s.file.bind seedIn

/-- The seed in the keychain. -/
def Stores.entrySeed (s : Stores) : Option Seed := s.entry.bind seedOf

def loadOrCreateSeed (e : Env) (s : Stores) : Except Err Seed × Stores :=
  match if e.read then s.fileSeed else none with
  | some seed => (.ok seed, s)
  | none =>
    match e.fresh with
    | none => (.error .rand, s)
    | some seed =>
      if e.mkdir = false then (.error .mkdir, s)
      else
        match e.write with
        | .written => (.ok seed, { s with file := some seed.toList })
        | .refused => (.error .write, s)
        | .torn n => (.error .write, { s with file := some (seed.toList.take n) })

/-- The stores after `keyring.Set`. -/
def setEntry (e : Env) (seed : Seed) (s : Stores) : Stores :=
  match e.set with
  | .failed false => s
  | _ => { s with entry := some (Base64.stdEncode seed.toList) }

/-- The keychain gives back the seed that was stored there. -/
def confirmed (e : Env) (seed : Seed) (s : Stores) : Bool :=
  decide (e.set = .stored) && e.confirm && decide (s.entrySeed = some seed)

def loadOrCreateSeedCustodial (e : Env) (s : Stores) :
    Except Err (Seed × CustodyKind) × Stores :=
  if e.available then
    match if e.get then s.entrySeed else none with
    | some seed => (.ok (seed, .keychain), s)
    | none =>
      match loadOrCreateSeed e s with
      | (.error err, s) => (.error err, s)
      | (.ok seed, s) =>
        let s := setEntry e seed s
        if confirmed e seed s then
          (.ok (seed, .keychain), if e.remove then { s with file := none } else s)
        else (.ok (seed, .file), s)
  else
    match loadOrCreateSeed e s with
    | (.error err, s) => (.error err, s)
    | (.ok seed, s) => (.ok (seed, .file), s)

/-! ### What a call does -/

variable {e : Env} {s : Stores}

@[simp] lemma seedIn_toList (seed : Seed) : seedIn seed.toList = some seed := by
  have hlen : seed.toList.length = 32 := Vector.length_toList
  rw [seedIn, dif_pos hlen.ge, Option.some.injEq]
  refine Vector.toList_inj.mp ?_
  simp [Vector.toList]

lemma seedIn_take (seed : Seed) (n : Fin 32) : seedIn (seed.toList.take n) = none := by
  rw [seedIn, dif_neg]
  rw [List.length_take]
  omega

@[simp] lemma seedOf_stdEncode (seed : Seed) :
    seedOf (Base64.stdEncode seed.toList) = some seed := by
  rw [seedOf, Base64.stdDecode_stdEncode, bind_some, seedIn_toList]

/-- The call cannot read a seed in either place. -/
def Blind (s : Stores) (e : Env) : Prop :=
  (e.available = true → e.get = true → s.entrySeed = none) ∧ (e.read = true → s.fileSeed = none)

/-- The call can read no seed and makes a new one. -/
def Creates (s : Stores) (e : Env) (seed : Seed) : Prop :=
  Blind s e ∧ e.fresh = some seed ∧ e.mkdir = true ∧ e.write = .written

/-- What `LoadOrCreateSeed` can do. -/
inductive Loads (s : Stores) (e : Env) : Except Err Seed × Stores → Prop
  | found {seed : Seed} (hseed : s.fileSeed = some seed) : Loads s e (.ok seed, s)
  | created {seed : Seed} (hread : e.read = true → s.fileSeed = none) (hfresh : e.fresh = some seed)
      (hmkdir : e.mkdir = true) (hwrite : e.write = .written) :
    Loads s e (.ok seed, { s with file := some seed.toList })
  | failed {err : Err} {s' : Stores} (hread : e.read = true → s.fileSeed = none)
      (hentry : s'.entry = s.entry) (hfile : s'.file = s.file ∨ s'.fileSeed = none) :
    Loads s e (.error err, s')

lemma loads (e : Env) (s : Stores) : Loads s e (loadOrCreateSeed e s) := by
  unfold loadOrCreateSeed
  split
  · rename_i seed hseed
    split_ifs at hseed
    exact .found hseed
  · rename_i hnone
    have hread : e.read = true → s.fileSeed = none := by
      intro hread
      rwa [if_pos hread] at hnone
    split
    · exact .failed hread rfl (.inl rfl)
    · rename_i seed hfresh
      split_ifs with hmkdir
      · exact .failed hread rfl (.inl rfl)
      · split
        · rename_i hwrite
          exact .created hread hfresh (Bool.eq_true_of_not_eq_false hmkdir) hwrite
        · exact .failed hread rfl (.inl rfl)
        · rename_i n _
          exact .failed hread rfl (.inr (seedIn_take seed n))

/-- What `LoadOrCreateSeedCustodial` can do: find the seed in the keychain, fail, or establish a seed
from the file, which the keychain may then hold too, or alone. -/
inductive Outcome (s : Stores) (e : Env) : Except Err (Seed × CustodyKind) × Stores → Prop
  | found {seed : Seed} (hseed : s.entrySeed = some seed) : Outcome s e (.ok (seed, .keychain), s)
  | failed {err : Err} {s' : Stores} (hblind : Blind s e) (hentry : s'.entry = s.entry)
      (hfile : s'.file = s.file ∨ s'.fileSeed = none) : Outcome s e (.error err, s')
  | established {seed : Seed} {kind : CustodyKind} {s' : Stores}
      (hfrom : s.fileSeed = some seed ∨ Creates s e seed)
      (hentry : s'.entry = s.entry ∨ s'.entrySeed = some seed)
      (hheld : s'.fileSeed = some seed ∨ s'.fileSeed = none ∧ s'.entrySeed = some seed) :
    Outcome s e (.ok (seed, kind), s')

lemma entry_setEntry (e : Env) (seed : Seed) (s : Stores) :
    (setEntry e seed s).entry = s.entry ∨ (setEntry e seed s).entrySeed = some seed := by
  unfold setEntry
  split
  · exact .inl rfl
  · exact .inr (seedOf_stdEncode seed)

lemma fileSeed_setEntry (e : Env) (seed : Seed) (s : Stores) :
    (setEntry e seed s).fileSeed = s.fileSeed := by
  unfold setEntry
  split <;> rfl

lemma Outcome.moved {s s' : Stores} {seed : Seed}
    (hfrom : s.fileSeed = some seed ∨ Creates s e seed) (hentry : s'.entry = s.entry)
    (hfile : s'.fileSeed = some seed) :
    Outcome s e (if confirmed e seed (setEntry e seed s') then
      (.ok (seed, .keychain),
        if e.remove then { setEntry e seed s' with file := none } else setEntry e seed s')
      else (.ok (seed, .file), setEntry e seed s')) := by
  have hset := entry_setEntry e seed s'
  rw [hentry] at hset
  have hheld := (fileSeed_setEntry e seed s').trans hfile
  by_cases hconfirmed : confirmed e seed (setEntry e seed s') = true
  · rw [if_pos hconfirmed]
    rw [confirmed, Bool.and_eq_true, decide_eq_true_eq] at hconfirmed
    by_cases hremove : e.remove = true
    · rw [if_pos hremove]
      exact .established hfrom hset (.inr ⟨rfl, hconfirmed.2⟩)
    · rw [if_neg hremove]
      exact .established hfrom hset (.inl hheld)
  · rw [if_neg hconfirmed]
    exact .established hfrom hset (.inl hheld)

theorem outcome (e : Env) (s : Stores) : Outcome s e (loadOrCreateSeedCustodial e s) := by
  unfold loadOrCreateSeedCustodial
  have hload := loads e s
  generalize loadOrCreateSeed e s = r at hload
  by_cases havailable : e.available = true
  · rw [if_pos havailable]
    cases hfound : if e.get then s.entrySeed else none with
    | some seed =>
      refine .found ?_
      split_ifs at hfound
      exact hfound
    | none =>
      have hno : e.available = true → e.get = true → s.entrySeed = none := by
        intro _ hget
        rwa [if_pos hget] at hfound
      cases hload with
      | found hseed => exact .moved (.inl hseed) rfl hseed
      | created hread hfresh hmkdir hwrite =>
        exact .moved (.inr ⟨⟨hno, hread⟩, hfresh, hmkdir, hwrite⟩) rfl (seedIn_toList _)
      | failed hread hentry hfile => exact .failed ⟨hno, hread⟩ hentry hfile
  · rw [if_neg havailable]
    have hno : e.available = true → e.get = true → s.entrySeed = none :=
      fun h => absurd h havailable
    cases hload with
    | found hseed => exact .established (.inl hseed) (.inl rfl) (.inl hseed)
    | created hread hfresh hmkdir hwrite =>
      exact .established (.inr ⟨⟨hno, hread⟩, hfresh, hmkdir, hwrite⟩) (.inl rfl)
        (.inl (seedIn_toList _))
    | failed hread hentry hfile => exact .failed ⟨hno, hread⟩ hentry hfile

/-! ### Runs -/

/-- The stores, and the seed that was returned first. -/
structure Watch where
  stores : Stores
  first : Option Seed

/-- The seed that a call returns. -/
def returned (e : Env) (s : Stores) : Option Seed :=
  match (loadOrCreateSeedCustodial e s).1 with
  | .ok (seed, _) => some seed
  | .error _ => none

lemma returned_of_creates {seed : Seed} (h : Creates s e seed) : returned e s = some seed := by
  obtain ⟨⟨hentry, hread⟩, hfresh, hmkdir, hwrite⟩ := h
  have hfile : (if e.read then s.fileSeed else none) = none := by
    split_ifs with hr
    · exact hread hr
    · rfl
  have hload : loadOrCreateSeed e s = (.ok seed, { s with file := some seed.toList }) := by
    simp only [loadOrCreateSeed, hfile, hfresh, hmkdir, hwrite, Bool.true_eq_false, if_false]
  unfold returned loadOrCreateSeedCustodial
  rw [hload]
  by_cases havailable : e.available = true
  · have hfound : (if e.get then s.entrySeed else none) = none := by
      split_ifs with hget
      · exact hentry havailable hget
      · rfl
    rw [if_pos havailable, hfound]
    dsimp only
    split_ifs <;> rfl
  · rw [if_neg havailable]

def step (w : Watch) (e : Env) : Watch :=
  ⟨(loadOrCreateSeedCustodial e w.stores).2, w.first.or (returned e w.stores)⟩

/-- The call returns the first seed, or none. -/
def Same (w : Watch) (e : Env) : Prop :=
  ∀ seed ∈ returned e w.stores, ∀ first ∈ w.first, seed = first

/-- The call makes no new seed after the first one was returned. -/
def Keeps (w : Watch) (e : Env) : Prop :=
  ∀ seed, Creates w.stores e seed → ∀ first ∈ w.first, seed = first

/-- Once a seed was returned, no other one is stored; before, the keychain holds none. -/
structure Settled (w : Watch) : Prop where
  file : ∀ seed ∈ w.stores.fileSeed, ∀ first ∈ w.first, seed = first
  entry : ∀ seed ∈ w.stores.entrySeed, w.first = some seed

/-- The first seed is still in one of the places. -/
def Held (w : Watch) : Prop :=
  ∀ first ∈ w.first, w.stores.fileSeed = some first ∨ w.stores.entrySeed = some first

/-- The call can read both places. -/
def Sighted (e : Env) : Prop := e.available = true ∧ e.get = true ∧ e.read = true

variable {w : Watch}

lemma Settled.same_iff (h : Settled w) : Same w e ↔ Keeps w e := by
  constructor
  · intro hsame seed hcreates
    exact hsame seed (returned_of_creates hcreates)
  · intro hkeeps seed hseed first hfirst
    have hout := outcome e w.stores
    unfold returned at hseed
    generalize loadOrCreateSeedCustodial e w.stores = r at hout hseed
    cases hout with
    | found hentry =>
      cases hseed
      exact Option.some.inj ((h.entry seed hentry).symm.trans hfirst)
    | failed => cases hseed
    | established hfrom =>
      cases hseed
      rcases hfrom with hfile | hcreates
      · exact h.file seed hfile first hfirst
      · exact hkeeps seed hcreates first hfirst

lemma Settled.step (h : Settled w) (hsame : Same w e) : Settled (step w e) := by
  have hout := outcome e w.stores
  unfold Same returned at hsame
  unfold Custody.step returned
  generalize loadOrCreateSeedCustodial e w.stores = r at hout hsame
  cases hout with
  | @found seed hentry =>
    have hfirst : w.first = some seed := h.entry seed hentry
    dsimp only
    rw [hfirst, some_or, ← hfirst]
    exact ⟨h.file, h.entry⟩
  | failed hblind hentry hfile =>
    dsimp only
    rw [or_none]
    refine ⟨fun x hx => ?_, fun x hx => ?_⟩
    · rcases hfile with hsame' | hnone
      · refine h.file x ?_
        rwa [Stores.fileSeed, ← hsame']
      · rw [hnone] at hx
        cases hx
    · refine h.entry x ?_
      rwa [Stores.entrySeed, ← hentry]
  | @established seed kind s' hfrom hentry hheld =>
    dsimp only at hsame ⊢
    have hfirst : w.first.or (some seed) = some seed := by
      cases hf : w.first with
      | none => rfl
      | some first => rw [some_or, hsame seed rfl first hf]
    rw [hfirst]
    refine ⟨fun x hx first hf => ?_, fun x hx => ?_⟩
    · cases hf
      rcases hheld with hfile | ⟨hnone, -⟩
      · exact Option.some.inj (hx.symm.trans hfile)
      · cases hnone.symm.trans hx
    · rcases hentry with hold | hnew
      · have hx' : w.first = some x := h.entry x (by rwa [Stores.entrySeed, ← hold])
        rw [← hfirst, hx', some_or]
      · exact hnew.symm.trans hx

lemma Held.keeps (h : Held w) (he : Sighted e) : Keeps w e := by
  rintro seed ⟨⟨hentry, hfile⟩, -⟩ first hfirst
  obtain ⟨havailable, hget, hread⟩ := he
  rcases h first hfirst with hheld | hheld
  · cases (hfile hread).symm.trans hheld
  · cases (hentry havailable hget).symm.trans hheld

lemma Held.step (h : Held w) (hs : Settled w) (he : Sighted e) : Held (step w e) := by
  have hsame : Same w e := hs.same_iff.mpr (h.keeps he)
  have hout := outcome e w.stores
  unfold Same returned at hsame
  unfold Custody.step returned
  generalize loadOrCreateSeedCustodial e w.stores = r at hout hsame
  intro first hfirst
  cases hout with
  | found hentry =>
    dsimp only at hfirst ⊢
    rw [hs.entry _ hentry] at hfirst
    cases hfirst
    exact .inr hentry
  | failed hblind hentry hfile =>
    dsimp only at hfirst
    rw [or_none] at hfirst
    rcases h first hfirst with hheld | hheld
    · cases (hblind.2 he.2.2).symm.trans hheld
    · cases (hblind.1 he.1 he.2.1).symm.trans hheld
  | @established seed kind s' hfrom hentry hheld =>
    dsimp only at hfirst hsame ⊢
    obtain rfl : seed = first := by
      cases hf : w.first with
      | none => exact Option.some.inj (by rwa [hf] at hfirst)
      | some first' =>
        rw [hf, some_or] at hfirst
        cases hfirst
        exact hsame seed rfl first hf
    exact hheld.imp_right And.right

/-- For every sequence of calls on a path whose keychain entry no one has written before: every call
that returns a seed returns the one that was returned first, iff no call after that makes a new
one. -/
theorem seed_stable_iff (s : Stores) (hs : s.entrySeed = none) (es : List Env) :
    (Along step Same ⟨s, none⟩ es ↔ Along step Keeps ⟨s, none⟩ es) ∧
    ((∀ e ∈ es, Sighted e) → Along step Same ⟨s, none⟩ es) := by
  have hstart : Settled ⟨s, none⟩ := by
    refine ⟨fun x _ first hfirst => ?_, fun x hx => ?_⟩
    · cases hfirst
    · cases hs.symm.trans hx
  have hheld : Held ⟨s, none⟩ := by
    intro first hfirst
    cases hfirst
  refine ⟨⟨fun h => ?_, fun h => ?_⟩, fun hes => ?_⟩
  · exact Along.imp_of_keeps (I := Settled) (fun _ _ hw hsame => hw.step hsame)
      (fun _ _ hw hsame => hw.same_iff.mp hsame) hstart h
  · exact Along.imp_of_keeps (I := Settled) (fun _ _ hw hk => hw.step (hw.same_iff.mpr hk))
      (fun _ _ hw hk => hw.same_iff.mpr hk) hstart h
  · have hsighted : Along step (fun _ e => Sighted e) ⟨s, none⟩ es :=
      along_of_forall_mem fun e he _ => hes e he
    refine Along.imp_of_keeps (I := fun w => Settled w ∧ Held w) ?_ ?_ ⟨hstart, hheld⟩ hsighted
    · rintro w e ⟨hw, hh⟩ he
      exact ⟨hw.step (hw.same_iff.mpr (hh.keeps he)), hh.step hw he⟩
    · rintro w e ⟨hw, hh⟩ he
      exact hw.same_iff.mpr (hh.keeps he)

namespace Sample

def working (seed : Seed) : Env where
  probeName := true
  probeSet := true
  probeGet := some (.lit "cerberus-probe")
  get := true
  set := .stored
  confirm := true
  read := true
  fresh := some seed
  mkdir := true
  write := .written
  remove := true

def headless (seed : Seed) : Env := { working seed with probeSet := false }

def seed (b : UInt8) : Seed := Vector.replicate 32 b

end Sample

open Sample

/-- With a keychain at every start the seed is the same. -/
theorem seed_stable_of_keychain :
    Along step Same ⟨⟨none, none⟩, none⟩
      [working (seed 1), working (seed 2)] :=
  (seed_stable_iff ⟨none, none⟩ rfl _).2 (by
    intro e he
    rcases List.mem_pair.mp he with rfl | rfl
    · exact ⟨rfl, rfl, rfl⟩
    · exact ⟨rfl, rfl, rfl⟩)

/-- A start with a keychain, and one without: the second one makes another seed. -/
theorem seed_lost_without_keychain :
    returned (working (seed 1)) ⟨none, none⟩ = some (seed 1) ∧
    returned (headless (seed 2))
      (loadOrCreateSeedCustodial (working (seed 1)) ⟨none, none⟩).2 =
        some (seed 2) ∧
    seed 2 ≠ seed 1 := by
  decide +kernel

end Cerberus.Custody
