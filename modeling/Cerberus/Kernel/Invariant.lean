import Cerberus.Kernel.Model

/-!
# The invariant of the kernel

What a call can do to the kernel is said once (`Effect`): nothing, store a signed capability under
the next handle, or flag an entry as revoked. From this follows the invariant of every run with
distinct ids that has not gone round the handle counter (`Sound`).
-/

namespace Cerberus.Kernel

open Foundation Nat

lemma lookup_insert_eq_some_iff {α β : Type*} [DecidableEq α] {m : Finmap fun _ : α => β}
    {a a' : α} {b b' : β} :
    (m.insert a b).lookup a' = some b' ↔
      a' = a ∧ b = b' ∨ a' ≠ a ∧ m.lookup a' = some b' := by
  by_cases h : a' = a
  · subst h
    simp
  · simp [h, Finmap.lookup_insert_of_ne m h]

/-! ### What a call does -/

/-- A capability has at most the authority of another one. -/
structure Narrows (c p : Capability) : Prop where
  resource : c.resource = p.resource
  rights : c.rights ⊆ p.rights
  caveats : p.caveats <+: c.caveats

lemma Narrows.refl (c : Capability) : Narrows c c :=
  ⟨rfl, List.Subset.refl _, List.prefix_refl _⟩

lemma Narrows.trans {c p a : Capability} (h : Narrows c p) (h' : Narrows p a) : Narrows c a :=
  ⟨h.resource.trans h'.resource, List.Subset.trans h.rights h'.rights, h'.caveats.trans h.caveats⟩

variable {P : Platform} {k : SignedKernel}

/-- The capability carries the kernel's name and its signature. -/
structure Signed (P : Platform) (k : SignedKernel) (cap : Capability) : Prop where
  issuer : cap.issuer = k.issuer
  sig : cap.sig = P.ed25519.sign k.signing (signingBytes P cap)

/-- The capability is a root, or is derived from an unrevoked entry. -/
def Derivable (k : SignedKernel) (cap : Capability) : Prop :=
  ∀ id ∈ cap.parent, ∃ h e, k.byHandle.lookup h = some e ∧ e.cap.id = id ∧ Narrows cap e.cap

/-- The kernel with an entry flagged as revoked. -/
def flag (k : SignedKernel) (h : CapHandle) (e : SignedEntry) : SignedKernel :=
  { k with byHandle := k.byHandle.insert h { e with revoked := true } }

/-- All that a call can do. -/
inductive Effect (P : Platform) (k : SignedKernel) (c : Call) : SignedKernel → Prop
  | nothing (hi : issued P k c = none) : Effect P k c k
  | issues (cap : Capability) (hi : issued P k c = some cap) : Effect P k c (insert k cap).2
  | revokes (h : CapHandle) (e : SignedEntry) (hi : issued P k c = none)
      (he : k.byHandle.lookup h = some e) : Effect P k c (flag k h e)

lemma live_or_dead (k : SignedKernel) (h : CapHandle) :
    (∃ e, k.byHandle.lookup h = some e ∧ e.revoked = false) ∨
      ∀ e, k.byHandle.lookup h = some e → e.revoked = true := by
  rw [or_iff_not_imp_left]
  intro hno e he
  exact Bool.eq_true_of_not_eq_false fun hr => hno ⟨e, he, hr⟩

section

variable {parent : CapHandle} {drop : List Right} {add : List Caveat} {id : CapId}
  {nonce : Vector UInt8 12}

section

variable (h : ∀ e, k.byHandle.lookup parent = some e → e.revoked = true)
include h

lemma issued_attenuate_of_dead : issued P k (.attenuate parent drop add id nonce) = none := by
  simp only [issued]
  split
  · rfl
  · rename_i e he
    rw [h e he, if_pos rfl]

lemma attenuate_snd_of_dead : (attenuate P k parent drop add id nonce).2 = k := by
  simp only [attenuate]
  split
  · rfl
  · rename_i e he
    rw [h e he, if_pos rfl]

end

lemma attenuate_fst_of_dead {h : CapHandle}
    (hdead : ∀ e, k.byHandle.lookup parent = some e → e.revoked = true) :
    (attenuate P k parent drop add id nonce).1 ≠ .ok h := by
  simp only [attenuate]
  split
  · exact nofun
  · rename_i e he
    rw [hdead e he, if_pos rfl]
    exact nofun

variable {e : SignedEntry} (he : k.byHandle.lookup parent = some e) (hr : e.revoked = false)

include he hr

lemma issued_attenuate_of_live :
    issued P k (.attenuate parent drop add id nonce) =
      some (newChild P k e.cap drop add id nonce) := by
  simp [issued, he, hr]

lemma attenuate_of_live :
    attenuate P k parent drop add id nonce =
      (.ok k.next, (insert k (newChild P k e.cap drop add id nonce)).2) := by
  simp [attenuate, he, hr, insert]

end

theorem effect (P : Platform) (k : SignedKernel) (c : Call) : Effect P k c (step P k c) := by
  cases c with
  | mintRoot resource rights caveats now ttl id nonce =>
    rw [step, mintRoot]
    cases hr : newRoot P k resource rights caveats now ttl id nonce with
    | none => exact .nothing hr
    | some cap => exact .issues cap hr
  | attenuate parent drop add id nonce =>
    rcases live_or_dead k parent with ⟨e, he, hr⟩ | hdead
    · rw [step, attenuate_of_live he hr]
      exact .issues _ (issued_attenuate_of_live he hr)
    · rw [step, attenuate_snd_of_dead hdead]
      exact .nothing (issued_attenuate_of_dead hdead)
  | revoke h =>
    rw [step, revoke]
    cases hl : k.byHandle.lookup h with
    | none => exact .nothing rfl
    | some e => exact .revokes h e rfl hl

variable {cap : Capability} {h h' : CapHandle} {e e' : SignedEntry} {more : List Call}

lemma signed_sign (h : cap.issuer = k.issuer) : Signed P k (sign P k cap) :=
  ⟨h, rfl⟩

lemma narrows_newChild (p : Capability) (drop : List Right) (add : List Caveat) (id : CapId)
    (nonce : Vector UInt8 12) : Narrows (newChild P k p drop add id nonce) p :=
  ⟨rfl, List.filter_subset_self _, List.prefix_append _ _⟩

lemma issued_spec {c : Call} (h : issued P k c = some cap) : Signed P k cap ∧ Derivable k cap := by
  cases c with
  | mintRoot resource rights caveats now ttl id nonce =>
    obtain ⟨exp, -, hcap⟩ := Option.bind_eq_some_iff.mp h
    cases hcap
    refine ⟨signed_sign rfl, ?_⟩
    rintro id ⟨⟩
  | attenuate parent drop add id nonce =>
    rw [issued] at h
    split at h
    · cases h
    · rename_i e he
      split at h
      · cases h
      · cases h
        refine ⟨signed_sign rfl, ?_⟩
        rintro id ⟨⟩
        exact ⟨parent, e, he, rfl, narrows_newChild _ _ _ _ _⟩
  | revoke h' => cases h

/-! ### The invariant -/

/-- The place of a handle in the order in which the counter gives them out, `1, 2, …, 2 ^ 64 - 1`
and last `0`. -/
def age (h : CapHandle) : ℕ := (h - 1).toNat

lemma age_ofNat_succ {n : ℕ} (hn : n < 2 ^ 64) : age (UInt64.ofNat (n + 1)) = n := by
  have h : UInt64.ofNat (n + 1) - 1 = UInt64.ofNat n := by
    rw [UInt64.ofNat_add]
    exact add_sub_cancel_right _ _
  rw [age, h, UInt64.toNat_ofNat_of_lt' hn]

/-- The invariant after `n` handles were given out. -/
structure Sound (P : Platform) (n : ℕ) (k : SignedKernel) : Prop where
  issuer : k.issuer = P.ed25519.publicKey k.signing
  next : k.next = UInt64.ofNat (n + 1)
  old : ∀ h e, k.byHandle.lookup h = some e → age h < n
  indexed : ∀ h e, k.byHandle.lookup h = some e → k.byId.lookup e.cap.id = some h
  known : ∀ id h, k.byId.lookup id = some h → ∃ e, k.byHandle.lookup h = some e ∧ e.cap.id = id
  signed : ∀ h e, k.byHandle.lookup h = some e → Signed P k e.cap
  /-- The parent of an entry is an older entry with at least its authority. -/
  parent : ∀ h e, k.byHandle.lookup h = some e → ∀ id ∈ e.cap.parent, ∃ h' e',
    k.byHandle.lookup h' = some e' ∧ e'.cap.id = id ∧ age h' < age h ∧ Narrows e.cap e'.cap

lemma sound_withSeed (P : Platform) (seed : Vector UInt8 32) : Sound P 0 (withSeed P seed) where
  issuer := rfl
  next := rfl
  old := by simp [withSeed]
  indexed := by simp [withSeed]
  known := by simp [withSeed]
  signed := by simp [withSeed]
  parent := by simp [withSeed]

variable {n : ℕ}

lemma Sound.handle_unique (hs : Sound P n k) (he : k.byHandle.lookup h = some e)
    (he' : k.byHandle.lookup h' = some e') (hid : e.cap.id = e'.cap.id) : h = h' := by
  have hi := hs.indexed h e he
  rw [hid, hs.indexed h' e' he'] at hi
  exact (Option.some.inj hi).symm

lemma lookup_flag (he : k.byHandle.lookup h = some e) :
    (flag k h e).byHandle.lookup h' = some e' →
      ∃ e₀, k.byHandle.lookup h' = some e₀ ∧ e₀.cap = e'.cap := by
  intro h₁
  rcases lookup_insert_eq_some_iff.mp h₁ with ⟨rfl, rfl⟩ | ⟨-, h₂⟩
  · exact ⟨e, he, rfl⟩
  · exact ⟨e', h₂, rfl⟩

lemma exists_lookup_flag (he : k.byHandle.lookup h = some e)
    (he' : k.byHandle.lookup h' = some e') :
    ∃ e₁, (flag k h e).byHandle.lookup h' = some e₁ ∧ e₁.cap = e'.cap ∧
      (e'.revoked = true → e₁.revoked = true) := by
  by_cases hh : h' = h
  · subst hh
    rw [he] at he'
    cases he'
    exact ⟨_, Finmap.lookup_insert _, rfl, fun _ => rfl⟩
  · exact ⟨e', (Finmap.lookup_insert_of_ne _ hh).trans he', rfl, id⟩

lemma Sound.of_flag (hs : Sound P n k) (he : k.byHandle.lookup h = some e) :
    Sound P n (flag k h e) where
  issuer := hs.issuer
  next := hs.next
  old h' e' he' := by
    obtain ⟨e₀, h₀, -⟩ := lookup_flag he he'
    exact hs.old h' e₀ h₀
  indexed h' e' he' := by
    obtain ⟨e₀, h₀, hc⟩ := lookup_flag he he'
    rw [← hc]
    exact hs.indexed h' e₀ h₀
  known id h' hi := by
    obtain ⟨e', he', hid⟩ := hs.known id h' hi
    obtain ⟨e₁, he₁, hc, -⟩ := exists_lookup_flag he he'
    exact ⟨e₁, he₁, hc ▸ hid⟩
  signed h' e' he' := by
    obtain ⟨e₀, h₀, hc⟩ := lookup_flag he he'
    have hsig := hs.signed h' e₀ h₀
    rw [hc] at hsig
    exact ⟨hsig.issuer, hsig.sig⟩
  parent h' e' he' id hid := by
    obtain ⟨e₀, h₀, hc⟩ := lookup_flag he he'
    rw [← hc] at hid ⊢
    obtain ⟨hp, p, hlp, hpid, hage, hn⟩ := hs.parent h' e₀ h₀ id hid
    obtain ⟨p₁, hlp₁, hpc, -⟩ := exists_lookup_flag he hlp
    exact ⟨hp, p₁, hlp₁, by rw [hpc, hpid], hage, by rwa [hpc]⟩

section

variable (hs : Sound P n k) (hn : n < 2 ^ 64)
include hs hn

lemma Sound.ne_next (he : k.byHandle.lookup h = some e) : h ≠ k.next := by
  rintro rfl
  have hage := hs.old k.next e he
  rw [hs.next, age_ofNat_succ hn] at hage
  exact lt_irrefl n hage

lemma Sound.lookup_insert (he : k.byHandle.lookup h = some e)
    (cap : Capability) : (insert k cap).2.byHandle.lookup h = some e :=
  (Finmap.lookup_insert_of_ne _ (hs.ne_next hn he)).trans he

lemma Sound.of_insert (hid : k.byId.lookup cap.id = none)
    (hsig : Signed P k cap) (hder : Derivable k cap) : Sound P (n + 1) (insert k cap).2 where
  issuer := hs.issuer
  next := by
    change k.next + 1 = _
    rw [hs.next, UInt64.ofNat_add (n + 1) 1]
    rfl
  old h e he := by
    rcases lookup_insert_eq_some_iff.mp he with ⟨rfl, rfl⟩ | ⟨-, he⟩
    · rw [hs.next, age_ofNat_succ hn]
      exact lt_succ_self n
    · exact (hs.old h e he).trans (lt_succ_self n)
  indexed h e he := by
    rcases lookup_insert_eq_some_iff.mp he with ⟨rfl, rfl⟩ | ⟨-, he⟩
    · exact Finmap.lookup_insert _
    · have hi := hs.indexed h e he
      have hne : e.cap.id ≠ cap.id := by
        intro heq
        rw [heq, hid] at hi
        cases hi
      exact (Finmap.lookup_insert_of_ne _ hne).trans hi
  known id h hi := by
    rcases lookup_insert_eq_some_iff.mp hi with ⟨rfl, rfl⟩ | ⟨-, hi⟩
    · exact ⟨⟨cap, false⟩, Finmap.lookup_insert _, rfl⟩
    · obtain ⟨e, he, heid⟩ := hs.known id h hi
      exact ⟨e, hs.lookup_insert hn he cap, heid⟩
  signed h e he := by
    rcases lookup_insert_eq_some_iff.mp he with ⟨rfl, rfl⟩ | ⟨-, he⟩
    · exact ⟨hsig.issuer, hsig.sig⟩
    · exact ⟨(hs.signed h e he).issuer, (hs.signed h e he).sig⟩
  parent h e he id hpar := by
    rcases lookup_insert_eq_some_iff.mp he with ⟨rfl, rfl⟩ | ⟨-, he⟩
    · obtain ⟨hp, p, hlp, hpid, hnar⟩ := hder id hpar
      refine ⟨hp, p, hs.lookup_insert hn hlp cap, hpid, ?_, hnar⟩
      rw [hs.next, age_ofNat_succ hn]
      exact hs.old hp p hlp
    · obtain ⟨hp, p, hlp, hpid, hage, hnar⟩ := hs.parent h e he id hpar
      exact ⟨hp, p, hs.lookup_insert hn hlp cap, hpid, hage, hnar⟩

end

/-- A call with a fresh id keeps the invariant, as long as the counter has not gone round. -/
theorem Sound.of_step (hs : Sound P n k) {c : Call} (hf : FreshId P k c)
    (hn : n + (issued P k c).toList.length < 2 ^ 64 + 1) :
    Sound P (n + (issued P k c).toList.length) (step P k c) := by
  have hstep := effect P k c
  revert hstep
  generalize step P k c = k'
  intro hstep
  cases hstep with
  | nothing hi =>
    rw [hi]
    exact hs
  | issues cap hi =>
    obtain ⟨hsig, hder⟩ := issued_spec hi
    rw [hi] at hn ⊢
    exact hs.of_insert (lt_of_succ_lt_succ hn) (hf cap hi) hsig hder
  | revokes h e hi he =>
    rw [hi]
    exact hs.of_flag he

/-- The ids drawn in the run are distinct and the handle counter has not gone round. -/
structure Proper (P : Platform) (seed : Vector UInt8 32) (calls : List Call) : Prop where
  fresh : Along (step P) (FreshId P) (withSeed P seed) calls
  count : issuedCount P seed calls ≤ 2 ^ 64

variable {seed : Vector UInt8 32} {calls : List Call}

theorem Proper.sound (h : Proper P seed calls) :
    Sound P (issuedCount P seed calls) (run P seed calls) := by
  have hrun := Along.invariant (B := 2 ^ 64 + 1)
    (fun n k c hs hf hn => Sound.of_step (n := n) (k := k) hs hf hn) (sound_withSeed P seed) h.fresh
    (by rw [zero_add]; exact lt_succ_of_le h.count)
  rwa [zero_add] at hrun

lemma Proper.of_append (h : Proper P seed (calls ++ more)) : Proper P seed calls := by
  refine ⟨(along_append.mp h.fresh).1, ?_⟩
  have hc := h.count
  rw [issuedCount, totalCost_append] at hc
  exact (le_add_right _ _).trans hc

/-- The invariant rule for proper runs: what every call keeps in a sound kernel is kept. -/
theorem Proper.keeps {J : SignedKernel → Prop}
    (hstep : ∀ n k c, Sound P n k → n + (issued P k c).toList.length < 2 ^ 64 + 1 → J k →
      J (step P k c)) (hp : Proper P seed (calls ++ more)) (h : J (run P seed calls)) :
    J (run P seed (calls ++ more)) := by
  have hcount := hp.count
  rw [issuedCount, totalCost_append] at hcount
  have hrun := Along.invariant (B := 2 ^ 64 + 1) (I := fun n k => Sound P n k ∧ J k)
    (fun n k c hI hf hn => ⟨hI.1.of_step hf hn, hstep n k c hI.1 hn hI.2⟩)
    ⟨hp.of_append.sound, h⟩ (along_append.mp hp.fresh).2 (lt_succ_of_le hcount)
  rw [run, runFrom_append]
  exact hrun.2

lemma Sound.exists_lookup_step (hs : Sound P n k) {c : Call}
    (hn : n + (issued P k c).toList.length < 2 ^ 64 + 1) (he : k.byHandle.lookup h = some e) :
    ∃ e', (step P k c).byHandle.lookup h = some e' ∧ e'.cap = e.cap ∧
      (e.revoked = true → e'.revoked = true) := by
  have hstep := effect P k c
  revert hstep
  generalize step P k c = k'
  intro hstep
  cases hstep with
  | nothing _ => exact ⟨e, he, rfl, id⟩
  | issues cap hi =>
    rw [hi] at hn
    exact ⟨e, hs.lookup_insert (lt_of_succ_lt_succ hn) he cap, rfl, id⟩
  | revokes h' e' _ he' => exact exists_lookup_flag he' he

end Cerberus.Kernel
