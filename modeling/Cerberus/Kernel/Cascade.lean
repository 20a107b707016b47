import Cerberus.Kernel.Authority

/-!
# Delegation and revocation

A capability is derived from another one by the attenuations of the run (`DerivedFrom`). In a run
with distinct ids that has not gone round the handle counter this is what the table says: the
parents of an entry are the capabilities it was derived from. Once the counter has gone round, the
handle of a revoked capability is given out again, and its children come back to life under the new
holder.
-/

namespace Cerberus.Kernel

open Foundation Relation
open List hiding Vector

/-- A call of the run derived one handle from the other. -/
def Attenuates (P : Platform) (seed : Vector UInt8 32) (calls : List Call) (a d : CapHandle) :
    Prop :=
  ∃ pre post drop add id nonce, calls = pre ++ .attenuate a drop add id nonce :: post ∧
    (attenuate P (run P seed pre) a drop add id nonce).1 = .ok d

/-- The calls of the run derived `d` from `a`, in any number of steps. -/
def DerivedFrom (P : Platform) (seed : Vector UInt8 32) (calls : List Call) :
    CapHandle → CapHandle → Prop :=
  ReflTransGen (Attenuates P seed calls)

variable {P : Platform} {k : SignedKernel} {n : ℕ} {seed : Vector UInt8 32} {calls : List Call}
  {a d h : CapHandle} {e : SignedEntry} {op : Text} {now : UInt64}

/-! ### The parents in the table -/

lemma Sound.parent_insert_iff (hs : Sound P n k) (hn : n < 2 ^ 64) {cap : Capability}
    (hid : k.byId.lookup cap.id = none) (hder : Derivable k cap) :
    Parent (insert k cap).2 d a ↔
      Parent k d a ∨ d = k.next ∧ ∃ e, k.byHandle.lookup a = some e ∧
        cap.parent = some e.cap.id := by
  -- nothing in the table has the fresh id
  have hfresh : ∀ h e, k.byHandle.lookup h = some e → e.cap.id ≠ cap.id := by
    intro h e he heq
    have hi := hs.indexed h e he
    rw [heq, hid] at hi
    cases hi
  constructor
  · rintro ⟨e₁, e₂, h₁, h₂, hpar⟩
    rcases lookup_insert_eq_some_iff.mp h₁ with ⟨rfl, rfl⟩ | ⟨-, h₁⟩
    · rcases lookup_insert_eq_some_iff.mp h₂ with ⟨rfl, rfl⟩ | ⟨-, h₂⟩
      · obtain ⟨h, e, he, heid, -⟩ := hder _ hpar
        exact absurd heid (hfresh h e he)
      · exact .inr ⟨rfl, e₂, h₂, hpar⟩
    · rcases lookup_insert_eq_some_iff.mp h₂ with ⟨rfl, rfl⟩ | ⟨-, h₂⟩
      · obtain ⟨h, e, he, heid, -⟩ := hs.parent d e₁ h₁ _ hpar
        exact absurd heid (hfresh h e he)
      · exact .inl ⟨e₁, e₂, h₁, h₂, hpar⟩
  · rintro (⟨e₁, e₂, h₁, h₂, hpar⟩ | ⟨rfl, e₂, h₂, hpar⟩)
    · exact ⟨e₁, e₂, hs.lookup_insert hn h₁ cap, hs.lookup_insert hn h₂ cap, hpar⟩
    · exact ⟨⟨cap, false⟩, e₂, Finmap.lookup_insert _, hs.lookup_insert hn h₂ cap, hpar⟩

lemma parent_flag_iff (he : k.byHandle.lookup h = some e) :
    Parent (flag k h e) d a ↔ Parent k d a := by
  constructor
  · rintro ⟨e₁, e₂, h₁, h₂, hpar⟩
    obtain ⟨e₁', h₁', hc₁⟩ := lookup_flag he h₁
    obtain ⟨e₂', h₂', hc₂⟩ := lookup_flag he h₂
    exact ⟨e₁', e₂', h₁', h₂', by rw [hc₁, hc₂, hpar]⟩
  · rintro ⟨e₁, e₂, h₁, h₂, hpar⟩
    obtain ⟨e₁', h₁', hc₁, -⟩ := exists_lookup_flag he h₁
    obtain ⟨e₂', h₂', hc₂, -⟩ := exists_lookup_flag he h₂
    exact ⟨e₁', e₂', h₁', h₂', by rw [hc₁, hc₂, hpar]⟩

/-- The call derives one handle from the other. -/
def Derives (P : Platform) (k : SignedKernel) (c : Call) (a d : CapHandle) : Prop :=
  ∃ drop add id nonce, c = .attenuate a drop add id nonce ∧
    (attenuate P k a drop add id nonce).1 = .ok d

variable {c : Call} {requested : UInt64}

lemma Sound.parent_step_iff (hs : Sound P n k) (hf : FreshId P k c)
    (hn : n + (issued P k c).toList.length < 2 ^ 64 + 1) :
    Parent (step P k c) d a ↔ Parent k d a ∨ Derives P k c a d := by
  cases c with
  | mintRoot resource rights caveats now ttl id nonce =>
    have hno : ¬ Derives P k (.mintRoot resource rights caveats now ttl id nonce) a d := by
      rintro ⟨_, _, _, _, habs, -⟩
      cases habs
    rw [step, mintRoot]
    cases hr : newRoot P k resource rights caveats now ttl id nonce with
    | none => exact ⟨.inl, fun h => h.resolve_right hno⟩
    | some cap =>
      have hi : issued P k (.mintRoot resource rights caveats now ttl id nonce) = some cap := hr
      rw [hi] at hn
      obtain ⟨exp, -, hcap⟩ := Option.bind_eq_some_iff.mp hr
      change Parent (insert k cap).2 d a ↔ _
      rw [hs.parent_insert_iff (Nat.lt_of_succ_lt_succ hn) (hf cap hi) (issued_spec hi).2]
      cases hcap
      constructor
      · rintro (hpar | ⟨-, _, -, habs⟩)
        · exact .inl hpar
        · cases habs
      · exact fun h => .inl (h.resolve_right hno)
  | attenuate p drop add id nonce =>
    rcases live_or_dead k p with ⟨e, he, hr⟩ | hdead
    · have hi : issued P k (.attenuate p drop add id nonce) =
          some (newChild P k e.cap drop add id nonce) := issued_attenuate_of_live he hr
      rw [hi] at hn
      rw [step, attenuate_of_live he hr]
      rw [hs.parent_insert_iff (Nat.lt_of_succ_lt_succ hn) (hf _ hi) (issued_spec hi).2]
      refine or_congr_right ⟨?_, ?_⟩
      · rintro ⟨rfl, e', he', hpar⟩
        obtain rfl : p = a := hs.handle_unique he he' (Option.some.inj hpar)
        exact ⟨drop, add, id, nonce, rfl, by rw [attenuate_of_live he hr]⟩
      · rintro ⟨_, _, _, _, heq, hok⟩
        cases heq
        rw [attenuate_of_live he hr] at hok
        cases hok
        exact ⟨rfl, e, he, rfl⟩
    · rw [step, attenuate_snd_of_dead hdead]
      refine ⟨.inl, fun h => h.resolve_right ?_⟩
      rintro ⟨_, _, _, _, heq, hok⟩
      cases heq
      exact attenuate_fst_of_dead hdead hok
  | revoke h =>
    have hno : ¬ Derives P k (.revoke h) a d := by
      rintro ⟨_, _, _, _, habs, -⟩
      cases habs
    rw [step, revoke]
    cases hl : k.byHandle.lookup h with
    | none => exact ⟨.inl, fun h => h.resolve_right hno⟩
    | some e => exact (parent_flag_iff hl).trans ⟨.inl, fun h => h.resolve_right hno⟩

lemma attenuates_concat_iff :
    Attenuates P seed (calls ++ [c]) a d ↔
      Attenuates P seed calls a d ∨ Derives P (run P seed calls) c a d := by
  constructor
  · rintro ⟨pre, post, drop, add, id, nonce, hcalls, hok⟩
    rcases eq_nil_or_concat post with rfl | ⟨post', c', rfl⟩
    · obtain ⟨rfl, hc⟩ := append_inj' hcalls rfl
      cases hc
      exact .inr ⟨drop, add, id, nonce, rfl, hok⟩
    · rw [concat_eq_append, ← cons_append, ← append_assoc] at hcalls
      obtain ⟨rfl, -⟩ := append_inj' hcalls rfl
      exact .inl ⟨pre, post', drop, add, id, nonce, rfl, hok⟩
  · rintro (⟨pre, post, drop, add, id, nonce, rfl, hok⟩ | ⟨drop, add, id, nonce, rfl, hok⟩)
    · exact ⟨pre, post ++ [c], drop, add, id, nonce, by simp, hok⟩
    · exact ⟨calls, [], drop, add, id, nonce, rfl, hok⟩

/-- The parents in the table are what the run derived its capabilities from. -/
theorem Proper.parent_iff (hp : Proper P seed calls) :
    Parent (run P seed calls) d a ↔ Attenuates P seed calls a d := by
  induction calls using List.reverseRecOn with
  | nil =>
    constructor
    · rintro ⟨e, -, he, -⟩
      cases he
    · rintro ⟨pre, post, _, _, _, _, habs, -⟩
      cases pre <;> cases habs
  | append_singleton calls c ih =>
    have hp' := hp.of_append
    have hf := (along_append.mp hp.fresh).2.1
    have hcount := hp.count
    rw [issuedCount, totalCost_append, totalCost_cons, totalCost_nil, Nat.add_zero] at hcount
    rw [attenuates_concat_iff, ← ih hp', run, runFrom_append, runFrom_cons, runFrom_nil]
    exact hp'.sound.parent_step_iff hf (Nat.lt_succ_of_le hcount)

lemma Proper.derivedFrom_iff (hp : Proper P seed calls) :
    DerivedFrom P seed calls a d ↔ ReflTransGen (Parent (run P seed calls)) d a := by
  have hrel : Attenuates P seed calls = Function.swap (Parent (run P seed calls)) := by
    funext a d
    exact propext hp.parent_iff.symm
  rw [DerivedFrom, hrel, reflTransGen_swap]

/-! ### Delegation narrows -/

section

variable (hs : Sound P n k) (hda : ReflTransGen (Parent k) d a)
include hs hda

lemma Sound.narrows_of_chain (hd : k.byHandle.lookup d = some e) :
    ∃ e', k.byHandle.lookup a = some e' ∧ Narrows e.cap e'.cap := by
  induction hda with
  | refl => exact ⟨e, hd, .refl _⟩
  | tail _ hstep ih =>
    obtain ⟨e₁, h₁, hnar⟩ := ih
    obtain ⟨e₂, e₃, h₂, h₃, hpar⟩ := hstep
    rw [h₁] at h₂
    cases h₂
    obtain ⟨q, e₄, h₄, hid, -, hnar'⟩ := hs.parent _ _ h₁ _ hpar
    cases hs.handle_unique h₄ h₃ hid
    rw [h₄] at h₃
    cases h₃
    exact ⟨_, h₄, hnar.trans hnar'⟩

lemma Sound.liveChain_of_chain (hl : LiveChain k now d) : LiveChain k now a := by
  induction hda with
  | refl => exact hl
  | tail _ hstep ih =>
    obtain ⟨e, -, he, -⟩ := id hstep
    exact ((hs.liveChain_child_iff he hstep).mp ih).2

lemma Sound.authorized_of_chain (h : Authorized k d op now) : Authorized k a op now := by
  obtain ⟨e, hd, hop⟩ := h.rights
  obtain ⟨e', ha, hnar⟩ := hs.narrows_of_chain hda hd
  exact ⟨⟨e', ha, fun r hr => hnar.rights (hop r hr)⟩, hs.liveChain_of_chain hda h.chain⟩

end

lemma checkCaveats_eq_ok_iff {cs : List Caveat} :
    checkCaveats requested cs = .ok () ↔
      ∀ c ∈ cs, ¬ (c.op.1 = .lit "max_bytes" ∧ ∃ max ∈ c.val.asU64, max < requested) := by
  induction cs with
  | nil => simp [checkCaveats]
  | cons c cs ih =>
    rw [checkCaveats, forall_mem_cons, ← ih]
    split_ifs with hc
    · exact ⟨fun habs => (nomatch habs), fun h => absurd hc h.1⟩
    · exact ⟨fun h => ⟨hc, h⟩, And.right⟩

lemma checkQuotaBytes_of_narrows {e' : SignedEntry} (hd : k.byHandle.lookup d = some e)
    (ha : k.byHandle.lookup a = some e') (hnar : Narrows e.cap e'.cap)
    (h : checkQuotaBytes k d requested = .ok ()) : checkQuotaBytes k a requested = .ok () := by
  rw [checkQuotaBytes, hd] at h
  rw [checkQuotaBytes, ha]
  dsimp only at h ⊢
  rw [hnar.resource] at h
  split_ifs at h ⊢ with hq
  rw [checkCaveats_eq_ok_iff] at h ⊢
  exact fun c hc => h c (hnar.caveats.subset hc)

lemma exists_lookup_of_checkQuotaBytes (h : checkQuotaBytes k d requested = .ok ()) :
    ∃ e, k.byHandle.lookup d = some e := by
  cases hd : k.byHandle.lookup d with
  | none => simp [checkQuotaBytes, hd] at h
  | some e => exact ⟨e, rfl⟩

/-! ### Revocation cascades -/

/-- The entry of a handle is flagged. -/
def Revoked (k : SignedKernel) (a : CapHandle) : Prop :=
  ∃ e, k.byHandle.lookup a = some e ∧ e.revoked = true

lemma Revoked.of_step (hs : Sound P n k) (hn : n + (issued P k c).toList.length < 2 ^ 64 + 1)
    (h : Revoked k a) : Revoked (step P k c) a := by
  obtain ⟨e, he, hr⟩ := h
  obtain ⟨e', he', -, hr'⟩ := hs.exists_lookup_step hn he
  exact ⟨e', he', hr' hr⟩

/-- A revoked capability stays revoked in every continuation of the run. -/
theorem Proper.revoked_of_append {more : List Call} (hp : Proper P seed (calls ++ more))
    (h : Revoked (run P seed calls) a) : Revoked (run P seed (calls ++ more)) a :=
  hp.keeps (J := fun k => Revoked k a) (fun _ _ _ hs hn hr => hr.of_step hs hn) h

lemma Revoked.not_authorized (h : Revoked k a) (hda : ReflTransGen (Parent k) d a) :
    ¬ Authorized k d op now := by
  intro hauth
  obtain ⟨e, he, hr⟩ := h
  obtain ⟨e₁, h₁, hf, -⟩ := hauth.chain.inForce a hda
  rw [he] at h₁
  cases h₁
  rw [hr] at hf
  cases hf

lemma revoke_eq_flag (he : k.byHandle.lookup a = some e) : revoke k a = (.ok (), flag k a e) := by
  rw [revoke, he]
  rfl

lemma exists_lookup_of_revoke (h : (revoke k a).1 = .ok ()) :
    ∃ e, k.byHandle.lookup a = some e := by
  cases ha : k.byHandle.lookup a with
  | none => simp [revoke, ha] at h
  | some e => exact ⟨e, rfl⟩

/-! ### Revocation reaches nothing else -/

lemma exists_of_walk_eq_inl {c c' : Capability} (h : walk P k now c = .inl c') :
    ∃ id p e', c.parent = some id ∧ k.byId.lookup id = some p ∧
      k.byHandle.lookup p = some e' ∧ e'.cap = c' := by
  rw [walk] at h
  split_ifs at h
  split at h
  · cases h
  rw [ascend] at h
  split at h
  · split_ifs at h
  rename_i id hid
  split at h
  · cases h
  rename_i p hp
  split at h
  · cases h
  rename_i e' he'
  split_ifs at h
  cases h
  exact ⟨id, p, e', hid, hp, he', rfl⟩

lemma walk_flag {c : Capability}
    (hp : ∀ id p, c.parent = some id → k.byId.lookup id = some p → p ≠ a) :
    walk P (flag k a e) now c = walk P k now c := by
  have hasc : ascend P (flag k a e) c = ascend P k c := by
    rw [ascend, ascend]
    cases hpar : c.parent with
    | none => rfl
    | some id =>
      have hid : (flag k a e).byId.lookup id = k.byId.lookup id := rfl
      dsimp only
      rw [hid]
      cases hl : k.byId.lookup id with
      | none => rfl
      | some p =>
        have hlook : (flag k a e).byHandle.lookup p = k.byHandle.lookup p :=
          Finmap.lookup_insert_of_ne _ (hp id p hpar hl)
        dsimp only
        rw [hlook]
  rw [walk, walk, hasc]

/-- The verdict on a capability that is not below the revoked one is the same as before. -/
theorem Sound.verify_flag (hs : Sound P n k) (hda : ¬ ReflTransGen (Parent k) d a) (fuel : ℕ) :
    verify P (flag k a e) fuel d op now = verify P k fuel d op now := by
  have hne : d ≠ a := fun heq => hda (heq ▸ .refl)
  have hlook : (flag k a e).byHandle.lookup d = k.byHandle.lookup d :=
    Finmap.lookup_insert_of_ne _ hne
  rw [verify, verify, hlook]
  cases hd : k.byHandle.lookup d with
  | none => rfl
  | some ed =>
    have hchain : verifyChain P (flag k a e) now fuel ed.cap = verifyChain P k now fuel ed.cap := by
      refine loop_congr
        (I := fun c => ∃ h e, k.byHandle.lookup h = some e ∧ e.cap = c ∧
          ¬ ReflTransGen (Parent k) h a) ?_ ⟨d, ed, hd, rfl, hda⟩ fuel
      rintro c ⟨h, eh, he, rfl, hha⟩
      refine ⟨walk_flag fun id p hpar hid hpa => ?_, fun c' hround => ?_⟩
      · obtain ⟨ep, hep, hepid⟩ := hs.known id p hid
        subst hpa
        exact hha (.single ⟨eh, ep, he, hep, by rw [hpar, hepid]⟩)
      · obtain ⟨id, p, e', hpar, hid, he', rfl⟩ := exists_of_walk_eq_inl hround
        obtain ⟨ep, hep, hepid⟩ := hs.known id p hid
        rw [he'] at hep
        cases hep
        exact ⟨p, e', he', rfl, fun hpa =>
          hha (.head ⟨eh, e', he, he', by rw [hpar, hepid]⟩ hpa)⟩
    dsimp only
    rw [hchain]

/-! ### The theorem -/

/-- In every run with distinct ids that stores at most `2 ^ 64` capabilities: what the kernel
accepts for a capability it accepts for those it was derived from; and once a capability is revoked,
nothing that was or will be derived from it is accepted again in any continuation, while the verdict
on every other capability is what it was. -/
theorem delegation_narrows_and_revocation_cascades (P : Platform) (seed : Vector UInt8 32)
    (calls : List Call) (hp : Proper P seed calls) :
    (∀ a d, DerivedFrom P seed calls a d → ∀ op now bytes,
      (Accepts P (run P seed calls) d op now → Accepts P (run P seed calls) a op now) ∧
      (checkQuotaBytes (run P seed calls) d bytes = .ok () →
        checkQuotaBytes (run P seed calls) a bytes = .ok ())) ∧
    ∀ a, (revoke (run P seed calls) a).1 = .ok () →
      (∀ more, Proper P seed (calls ++ .revoke a :: more) →
        ∀ d, DerivedFrom P seed (calls ++ .revoke a :: more) a d → ∀ op now,
          ¬ Accepts P (run P seed (calls ++ .revoke a :: more)) d op now) ∧
      ∀ d, ¬ DerivedFrom P seed calls a d → ∀ fuel op now,
        verify P (revoke (run P seed calls) a).2 fuel d op now =
          verify P (run P seed calls) fuel d op now := by
  have hs := hp.sound
  refine ⟨fun a d hda op now bytes => ⟨fun hacc => ?_, fun hq => ?_⟩, fun a hok => ⟨?_, ?_⟩⟩
  · rw [hp.derivedFrom_iff] at hda
    exact hs.accepts_iff.mpr (hs.authorized_of_chain hda (hs.accepts_iff.mp hacc))
  · rw [hp.derivedFrom_iff] at hda
    obtain ⟨e, he⟩ := exists_lookup_of_checkQuotaBytes hq
    obtain ⟨e', he', hnar⟩ := hs.narrows_of_chain hda he
    exact checkQuotaBytes_of_narrows he he' hnar hq
  · intro more hmore d hda op now hacc
    obtain ⟨e, he⟩ := exists_lookup_of_revoke hok
    have hrev : Revoked (run P seed (calls ++ [.revoke a])) a := by
      rw [run, runFrom_append, runFrom_cons, runFrom_nil, step]
      change Revoked (revoke (run P seed calls) a).2 a
      rw [revoke_eq_flag he]
      exact ⟨_, Finmap.lookup_insert _, rfl⟩
    rw [hmore.derivedFrom_iff] at hda
    have hlater : Revoked (run P seed (calls ++ .revoke a :: more)) a := by
      rw [append_cons] at hmore ⊢
      exact hmore.revoked_of_append hrev
    exact hlater.not_authorized hda (hmore.sound.accepts_iff.mp hacc)
  · intro d hda fuel op now
    obtain ⟨e, he⟩ := exists_lookup_of_revoke hok
    rw [hp.derivedFrom_iff] at hda
    rw [revoke_eq_flag he]
    exact hs.verify_flag hda fuel

lemma derivedFrom_pair (more : List Call) :
    DerivedFrom samplePlatform sampleSeed (pairCalls ++ more) 1 2 :=
  .single ⟨[mintCall [.read] (capId 0 0)], more, [], [], capId 0 1, Vector.replicate 12 0, rfl, rfl⟩

theorem pair_narrows_and_cascades :
    (Accepts samplePlatform (run samplePlatform sampleSeed pairCalls) 2 readOp 0 →
      Accepts samplePlatform (run samplePlatform sampleSeed pairCalls) 1 readOp 0) ∧
    ¬ Accepts samplePlatform (run samplePlatform sampleSeed (pairCalls ++ [.revoke 1])) 2 readOp
      0 := by
  have hp : Proper samplePlatform sampleSeed pairCalls := ⟨along_pairCalls, by decide +kernel⟩
  have hp' : Proper samplePlatform sampleSeed (pairCalls ++ [.revoke 1]) := by
    refine ⟨along_append.mpr ⟨along_pairCalls, ?_, trivial⟩, by decide +kernel⟩
    rintro cap ⟨⟩
  have hmain := delegation_narrows_and_revocation_cascades _ _ _ hp
  refine ⟨(hmain.1 1 2 (derivedFrom_pair []) readOp 0 0).1, ?_⟩
  exact (hmain.2 1 rfl).1 [] hp' 2 (derivedFrom_pair _) readOp 0

/-! ### A revoked capability comes back -/

/-- A capability is delegated and revoked; after the counter has gone round, another root takes its
handle. -/
def revivingCalls : List Call :=
  pairCalls ++ [.revoke 1] ++ fillers (2 ^ 64 - 2) ++ [mintCall [.read] (capId 0 2)]

lemma byId_revoke (k : SignedKernel) (h : CapHandle) : (revoke k h).2.byId = k.byId := by
  rw [revoke]
  cases k.byHandle.lookup h <;> rfl

lemma byId_revoked_filler (i : ℕ) :
    (run P seed (pairCalls ++ [.revoke 1])).byId.lookup (capId 1 i) = none := by
  rw [run, runFrom_append]
  change (revoke (run P seed pairCalls) 1).2.byId.lookup (capId 1 i) = none
  rw [byId_revoke]
  exact byId_pairCalls_filler i

lemma accepts_of_round {m : ℕ} {k' : SignedKernel}
    (hfill : Filled m (run P seed (pairCalls ++ [.revoke 1])) k') (hm : m + 2 = 2 ^ 64) :
    Accepts P (step P k' (mintCall [.read] (capId 0 2))) 2 readOp 0 := by
  rw [step_mintCall]
  have hnext : k'.next = 1 := hfill.next_of_round rfl hm
  have hchild' : HoldsChild P seed k' := HoldsChild.of_round ⟨rfl, rfl, rfl, rfl, rfl⟩ hfill rfl hm
  set c := secondCap P seed with hc
  set r := mintedCap P k' [.read] (capId 0 2) with hr
  set k₁ := (insert k' r).2 with hk₁
  have hchild : HoldsChild P seed k₁ := hchild'.of_insert hnext rfl
  have hone : k₁.byHandle.lookup 1 = some ⟨r, false⟩ := by
    rw [← hnext]
    exact Finmap.lookup_insert _
  have hsr : Signed P k₁ r := ⟨rfl, rfl⟩
  have hcr : walk P k₁ 0 c = .inl r :=
    walk_secondCap hchild hone ⟨rfl, List.Subset.refl _, List.nil_prefix⟩
  have hroot : walk P k₁ 0 r = .inr (.ok ()) := by
    rw [walk_of_windowOpen (verifySig_of_signed hchild.key hsr) (windowOpen_always rfl rfl)]
    exact if_neg (not_not.mpr rfl)
  have hop : ∀ r ∈ rightForOp readOp, r ∈ c.rights := by
    intro r hr
    cases hr
    exact mem_singleton_self _
  refine ⟨2, ?_⟩
  rw [verify_eq_verifyChain hchild.child rfl hop, verifyChain, loop_succ_inl hcr,
    loop_succ_inr hroot]

/-- A run with distinct ids in which a capability derived from a revoked one is accepted again. -/
theorem revoked_parent_revives :
    Along (step samplePlatform) (FreshId samplePlatform) (withSeed samplePlatform sampleSeed)
        revivingCalls ∧
      (revoke (run samplePlatform sampleSeed pairCalls) 1).1 = .ok () ∧
      DerivedFrom samplePlatform sampleSeed revivingCalls 1 2 ∧
      Accepts samplePlatform (run samplePlatform sampleSeed revivingCalls) 2 readOp 0 := by
  obtain ⟨m, hm⟩ : ∃ m, m = 2 ^ 64 - 2 := ⟨_, rfl⟩
  have hids : ∀ i, (run samplePlatform sampleSeed (pairCalls ++ [Call.revoke 1])).byId.lookup
      (capId 1 i) = none := byId_revoked_filler
  obtain ⟨hfill, halong⟩ := filled_fillers (P := samplePlatform) hids (m := m) (by omega)
  have hderived : DerivedFrom samplePlatform sampleSeed revivingCalls 1 2 := by
    rw [revivingCalls, append_assoc, append_assoc]
    exact derivedFrom_pair _
  refine ⟨?_, rfl, hderived, ?_⟩
  · rw [revivingCalls, ← hm, along_append, along_append, along_append, runFrom_append]
    refine ⟨⟨⟨along_pairCalls, ?_, trivial⟩, halong⟩, ?_, trivial⟩
    · rintro cap ⟨⟩
    · rintro cap ⟨⟩
      exact (hfill.byId_zero 2).trans rfl
  · rw [revivingCalls, ← hm, run, runFrom_append, runFrom_append]
    exact accepts_of_round hfill (by omega)

end Cerberus.Kernel
