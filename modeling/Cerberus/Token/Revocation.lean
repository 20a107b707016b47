import Cerberus.Foundation.Run
import Cerberus.Token.Attenuation

/-!
# Revocation by id

A token is revoked by its id. The id is a counter that starts again with every start of the daemon;
the set of revoked ids is kept in the store, across starts; and ids that were revoked on other
nodes, which count in the same way, are added to it. So an id does not say which token is meant.

The state keeps, beside the issuer, the tokens that were minted and those that were revoked. When
tokens are told apart is said by `run_discriminates_iff`.
-/

namespace Cerberus.Token

open Foundation Finset
open List hiding Vector mem_cons_self mem_singleton

/-! ### The daemon -/

/-- `revocationEvent`, the wire form of a revocation. -/
structure RevocationEvent where
  id : GoString
  reason : GoString

/-- `Revoke`, without the hooks that publish the id. -/
def revoke (iss : Issuer) (id : GoString) (stored : Bool) : Issuer := iss.markRevoked id stored

def applyRevocation (iss : Issuer) (id : GoString) (stored : Bool) : Issuer :=
  iss.markRevoked id stored

/-- What `RevocationGossip.Run` does with a sample; one that does not unmarshal is `none`. -/
def receive (iss : Issuer) (sample : Option RevocationEvent) (stored : Bool) : Issuer :=
  match sample with
  | none => iss
  | some ev => if ev.id = ⟨[]⟩ then iss else applyRevocation iss ev.id stored

structure Daemon where
  issuer : Issuer
  minted : List GoString
  /-- The tokens that were revoked, by their holders on this node or on another. -/
  targets : List GoString

/-- What happens to a daemon. `meant` is the token that somebody wants to revoke with an id,
`stored` is whether the store takes the write. -/
inductive Event
  | start (now : Int64)
  | mint (subject : GoString) (rights : List GoString) (resource : GoString) (ttl now : Int64)
  | attenuate (parent : GoString) (keepRights : List GoString) (resource : GoString)
      (ttl now now' : Int64)
  | revoke (id meant : GoString) (stored : Bool)
  | gossip (sample : Option RevocationEvent) (meant : GoString) (stored : Bool)

variable (H : Host)

/-- The token that an event mints, with the issuer after it. A start makes a new issuer with the
key and the store of the old one, and mints the operator's token. -/
def newToken (d : Daemon) : Event → Option (GoString × Issuer)
  | .start now =>
    some (mint H (fromSeed d.issuer.seed d.issuer.revoked) (.lit "operator") [.lit "admin"] ⟨[]⟩
      86400000000000 now)
  | .mint subject rights resource ttl now => some (mint H d.issuer subject rights resource ttl now)
  | .attenuate parent keepRights resource ttl now now' =>
    (attenuate H d.issuer now now' parent keepRights resource ttl).toOption
  | .revoke _ _ _ => none
  | .gossip _ _ _ => none

/-- The id that an event revokes, and the token that is meant. -/
def withdrawn : Event → Option (GoString × GoString)
  | .revoke id meant stored => if stored then some (id, meant) else none
  | .gossip (some ev) meant stored =>
    if ev.id ≠ ⟨[]⟩ ∧ stored = true then some (ev.id, meant) else none
  | _ => none

def step (d : Daemon) (e : Event) : Daemon where
  issuer :=
    match e with
    | .revoke id _ stored => revoke d.issuer id stored
    | .gossip sample _ stored => receive d.issuer sample stored
    | _ => ((newToken H d e).map Prod.snd).getD d.issuer
  minted := ((newToken H d e).map Prod.fst).toList ++ d.minted
  targets := ((withdrawn e).map Prod.snd).toList ++ d.targets

/-- The daemon before its first start, with an empty store. -/
def fresh (seed : Vector UInt8 32) : Daemon := ⟨fromSeed seed ∅, [], []⟩

def run (seed : Vector UInt8 32) (events : List Event) : Daemon :=
  runFrom (step H) (fresh seed) events

variable {H} {d : Daemon} {e : Event} {tok : GoString} {c : Claims}

/-- The token reads as these claims. -/
def Daemon.Shows (H : Host) (d : Daemon) (tok : GoString) (c : Claims) : Prop :=
  read H (H.ed25519.publicKey d.issuer.seed) tok = .ok c

lemma Daemon.Shows.unique {c' : Claims} (h : d.Shows H tok c) (h' : d.Shows H tok c') : c = c' := by
  rw [Daemon.Shows, h] at h'
  exact Except.ok.inj h'

/-! ### What an event can do -/

/-- A new token comes from the key of the daemon and leaves the store as it is; its id is the
counter of the issuer after it. -/
structure Issued (H : Host) (d : Daemon) (r : GoString × Issuer) : Prop where
  seed : r.2.seed = d.issuer.seed
  revoked : r.2.revoked = d.issuer.revoked
  shows : ∃ c, d.Shows H r.1 c ∧ c.id = .formatUint r.2.next

variable {r : GoString × Issuer}

lemma eq_mint_of_newToken (h : newToken H d e = some r) :
    ∃ base subject rights resource ttl now, r = mint H base subject rights resource ttl now ∧
      (base = d.issuer ∨
        base = fromSeed d.issuer.seed d.issuer.revoked ∧ ∃ now, e = .start now) := by
  cases e with
  | start now =>
    exact ⟨_, _, _, _, _, _, (Option.some.inj h).symm, .inr ⟨rfl, now, rfl⟩⟩
  | mint subject rights resource ttl now =>
    exact ⟨_, _, _, _, _, _, (Option.some.inj h).symm, .inl rfl⟩
  | attenuate parent keepRights resource ttl now now' =>
    rw [newToken, attenuate] at h
    split at h
    · cases h
    · split at h
      · cases h
      · exact ⟨_, _, _, _, _, _, (Option.some.inj h).symm, .inl rfl⟩
  | revoke id meant stored => cases h
  | gossip sample meant stored => cases h

lemma issued_of_newToken (h : newToken H d e = some r) : Issued H d r := by
  obtain ⟨base, subject, rights, resource, ttl, now, rfl, hbase⟩ := eq_mint_of_newToken h
  have hseed : base.seed = d.issuer.seed := by
    rcases hbase with rfl | ⟨rfl, -⟩ <;> rfl
  have hrev : base.revoked = d.issuer.revoked := by
    rcases hbase with rfl | ⟨rfl, -⟩ <;> rfl
  refine ⟨hseed, hrev, (newClaims H base subject rights resource ttl now).coerced, ?_, ?_⟩
  · rw [Daemon.Shows, ← hseed]
    exact read_text base.seed _
  · exact GoString.coerce_of_valid (GoString.valid_formatUint _)

def Daemon.record (d : Daemon) (r : GoString × Issuer) : Daemon :=
  { d with issuer := r.2, minted := r.1 :: d.minted }

def Daemon.withdraw (d : Daemon) (p : GoString × GoString) : Daemon :=
  { d with
    issuer := { d.issuer with revoked := insert p.1 d.issuer.revoked }
    targets := p.2 :: d.targets }

lemma Issued.shows_record_iff (hi : Issued H d r) :
    (d.record r).Shows H tok c ↔ d.Shows H tok c := by
  rw [Daemon.Shows, Daemon.Shows, Daemon.record, hi.seed]

lemma step_cases (H : Host) (d : Daemon) (e : Event) :
    (∃ r, newToken H d e = some r ∧ withdrawn e = none ∧ step H d e = d.record r) ∨
    (∃ p, newToken H d e = none ∧ withdrawn e = some p ∧ step H d e = d.withdraw p) ∨
    (newToken H d e = none ∧ withdrawn e = none ∧ step H d e = d) := by
  cases e with
  | start now => exact .inl ⟨_, rfl, rfl, rfl⟩
  | mint subject rights resource ttl now => exact .inl ⟨_, rfl, rfl, rfl⟩
  | attenuate parent keepRights resource ttl now now' =>
    cases h : newToken H d (.attenuate parent keepRights resource ttl now now') with
    | none => exact .inr (.inr ⟨rfl, rfl, by simp only [step, h]; rfl⟩)
    | some r => exact .inl ⟨r, rfl, rfl, by simp only [step, h]; rfl⟩
  | revoke id meant stored =>
    cases stored with
    | false => exact .inr (.inr ⟨rfl, rfl, rfl⟩)
    | true => exact .inr (.inl ⟨(id, meant), rfl, rfl, rfl⟩)
  | gossip sample meant stored =>
    cases sample with
    | none => exact .inr (.inr ⟨rfl, rfl, rfl⟩)
    | some ev =>
      by_cases hid : ev.id = ⟨[]⟩
      · have hno : withdrawn (.gossip (some ev) meant stored) = none := if_neg fun h => h.1 hid
        exact .inr (.inr ⟨rfl, hno, by simp [step, newToken, hno, receive, hid]⟩)
      · cases stored with
        | false =>
          have hno : withdrawn (.gossip (some ev) meant false) = none :=
            if_neg fun h => (nomatch h.2)
          refine .inr (.inr ⟨rfl, hno, ?_⟩)
          simp [step, newToken, hno, receive, hid, applyRevocation, Issuer.markRevoked]
        | true =>
          have hyes : withdrawn (.gossip (some ev) meant true) = some (ev.id, meant) :=
            if_pos ⟨hid, rfl⟩
          refine .inr (.inl ⟨(ev.id, meant), rfl, hyes, ?_⟩)
          simp [step, newToken, hyes, receive, hid, applyRevocation, Issuer.markRevoked,
            Daemon.withdraw]

/-! ### Telling tokens apart -/

/-- Some time is inside the window. -/
def Claims.Usable (c : Claims) : Prop :=
  ∃ now, c.notBefore ≤ now ∧ (c.expiry = 0 ∨ now < c.expiry)

/-- Only revoked tokens are rejected as revoked, and different tokens have different ids. -/
structure Discriminates (H : Host) (d : Daemon) : Prop where
  rejects : ∀ tok ∈ d.minted, ∀ now, verify H d.issuer now tok = .error .revoked → tok ∈ d.targets
  unique : ∀ tok ∈ d.minted, ∀ tok' ∈ d.minted, ∀ c c', d.Shows H tok c → d.Shows H tok' c' →
    c.id = c'.id → tok = tok'

/-- The step does not confuse tokens. A new token has an id that no other token has, and that is
not revoked unless the token itself is; a revoked id is that of no token but the one that is
meant. -/
structure Apt (H : Host) (d : Daemon) (e : Event) : Prop where
  mints : ∀ r ∈ newToken H d e, ∀ c, d.Shows H r.1 c →
    (∀ tok ∈ d.minted, ∀ c', d.Shows H tok c' → c'.id = c.id → tok = r.1) ∧
      (c.id ∈ d.issuer.revoked → c.Usable → r.1 ∈ d.targets)
  withdraws : ∀ p ∈ withdrawn e, ∀ tok ∈ d.minted, ∀ c, d.Shows H tok c → c.id = p.1 → c.Usable →
    tok = p.2 ∨ tok ∈ d.targets

/-- Every minted token reads as claims. -/
def Readable (H : Host) (d : Daemon) : Prop := ∀ tok ∈ d.minted, ∃ c, d.Shows H tok c

lemma Readable.step (hr : Readable H d) (e : Event) : Readable H (step H d e) := by
  rcases step_cases H d e with ⟨r, hnew, -, hstep⟩ | ⟨p, -, -, hstep⟩ | ⟨-, -, hstep⟩
  · have hi : Issued H d r := issued_of_newToken hnew
    rw [hstep]
    intro tok htok
    rcases mem_cons.mp htok with rfl | htok
    · obtain ⟨c, hc, -⟩ := hi.shows
      exact ⟨c, hi.shows_record_iff.mpr hc⟩
    · obtain ⟨c, hc⟩ := hr tok htok
      exact ⟨c, hi.shows_record_iff.mpr hc⟩
  · rw [hstep]
    exact hr
  · rw [hstep]
    exact hr

lemma verify_eq_revoked_iff {iss : Issuer} {now : Int64}
    (hread : read H (H.ed25519.publicKey iss.seed) tok = .ok c) :
    verify H iss now tok = .error .revoked ↔
      c.notBefore ≤ now ∧ (c.expiry = 0 ∨ now < c.expiry) ∧ c.id ∈ iss.revoked := by
  rw [verify, hread]
  dsimp only
  rw [check]
  by_cases hnbf : now < c.notBefore
  · rw [if_pos hnbf]
    refine iff_of_false (by simp) fun h => ?_
    exact absurd h.1 (Int64.not_le.mpr hnbf)
  rw [if_neg hnbf]
  by_cases hexp : c.expiry ≠ 0 ∧ c.expiry ≤ now
  · rw [if_pos hexp]
    refine iff_of_false (by simp) fun h => ?_
    exact absurd hexp.2 (Int64.not_le.mpr (h.2.1.resolve_left hexp.1))
  rw [if_neg hexp]
  have hopen : c.expiry = 0 ∨ now < c.expiry := by
    rwa [not_and_or, not_not, Int64.not_le] at hexp
  by_cases hrev : c.id ∈ iss.revoked
  · have hrev' : iss.isRevoked c.id = true := decide_eq_true hrev
    rw [if_pos hrev']
    exact iff_of_true rfl ⟨Int64.not_lt.mp hnbf, hopen, hrev⟩
  · rw [if_neg (by simpa [Issuer.isRevoked] using hrev)]
    exact iff_of_false (by simp) fun h => hrev h.2.2

lemma discriminates_iff (hr : Readable H d) : Discriminates H d ↔
    (∀ tok ∈ d.minted, ∀ c, d.Shows H tok c → c.id ∈ d.issuer.revoked → c.Usable →
      tok ∈ d.targets) ∧
    ∀ tok ∈ d.minted, ∀ tok' ∈ d.minted, ∀ c c', d.Shows H tok c → d.Shows H tok' c' →
      c.id = c'.id → tok = tok' := by
  constructor
  · rintro ⟨hrej, huniq⟩
    refine ⟨?_, huniq⟩
    rintro tok htok c hc hid ⟨now, hnbf, hexp⟩
    exact hrej tok htok now ((verify_eq_revoked_iff hc).mpr ⟨hnbf, hexp, hid⟩)
  · rintro ⟨hrej, huniq⟩
    refine ⟨fun tok htok now hrev => ?_, huniq⟩
    obtain ⟨c, hc⟩ := hr tok htok
    obtain ⟨hnbf, hexp, hid⟩ := (verify_eq_revoked_iff hc).mp hrev
    exact hrej tok htok c hc hid ⟨now, hnbf, hexp⟩

section

variable (hr : Readable H d) (h : Discriminates H d)
include hr h

lemma discriminates_record_iff (hi : Issued H d r) (hr' : Readable H (d.record r)) :
    Discriminates H (d.record r) ↔ ∀ c, d.Shows H r.1 c →
      (∀ tok ∈ d.minted, ∀ c', d.Shows H tok c' → c'.id = c.id → tok = r.1) ∧
        (c.id ∈ d.issuer.revoked → c.Usable → r.1 ∈ d.targets) := by
  obtain ⟨hrej, huniq⟩ := (discriminates_iff hr).mp h
  have hmem : r.1 ∈ (d.record r).minted := List.mem_cons_self
  have hold : ∀ tok ∈ d.minted, tok ∈ (d.record r).minted := fun _ => mem_cons_of_mem _
  have hrevoked : (d.record r).issuer.revoked = d.issuer.revoked := hi.revoked
  rw [discriminates_iff hr', hrevoked]
  simp only [hi.shows_record_iff]
  constructor
  · rintro ⟨hrej', huniq'⟩ c hc
    exact ⟨fun tok htok c' hc' hid => huniq' tok (hold tok htok) r.1 hmem c' c hc' hc hid,
      hrej' r.1 hmem c hc⟩
  · intro hapt
    refine ⟨fun tok htok c hc => ?_, fun tok htok tok' htok' c c' hc hc' hid => ?_⟩
    · rcases mem_cons.mp htok with rfl | htok
      · exact (hapt c hc).2
      · exact hrej tok htok c hc
    · rcases mem_cons.mp htok with rfl | htok
      · rcases mem_cons.mp htok' with rfl | htok'
        · rfl
        · exact ((hapt c hc).1 tok' htok' c' hc' hid.symm).symm
      · rcases mem_cons.mp htok' with rfl | htok'
        · exact (hapt c' hc').1 tok htok c hc hid
        · exact huniq tok htok tok' htok' c c' hc hc' hid

lemma discriminates_withdraw_iff (p : GoString × GoString) : Discriminates H (d.withdraw p) ↔
      ∀ tok ∈ d.minted, ∀ c, d.Shows H tok c → c.id = p.1 → c.Usable →
        tok = p.2 ∨ tok ∈ d.targets := by
  obtain ⟨hrej, huniq⟩ := (discriminates_iff hr).mp h
  have hr' : Readable H (d.withdraw p) := hr
  have hmem : ∀ id, id ∈ (d.withdraw p).issuer.revoked ↔ id = p.1 ∨ id ∈ d.issuer.revoked :=
    fun _ => mem_insert
  rw [discriminates_iff hr']
  simp only [hmem]
  constructor
  · rintro ⟨hrej', -⟩ tok htok c hc hid huse
    exact mem_cons.mp (hrej' tok htok c hc (.inl hid) huse)
  · refine fun hapt => ⟨fun tok htok c hc hid huse => mem_cons.mpr ?_, huniq⟩
    rcases hid with hid | hid
    · exact hapt tok htok c hc hid huse
    · exact .inr (hrej tok htok c hc hid huse)

/-- An event keeps the tokens apart iff it is apt. -/
theorem Discriminates.step_iff (e : Event) : Discriminates H (step H d e) ↔ Apt H d e := by
  rcases step_cases H d e with ⟨r, hnew, hno, hstep⟩ | ⟨p, hno, hw, hstep⟩ | ⟨hno, hno', hstep⟩
  · have hr' : Readable H (d.record r) := hstep ▸ hr.step e
    rw [hstep, discriminates_record_iff hr h (issued_of_newToken hnew) hr']
    refine ⟨fun hapt => ⟨fun r' hr' => ?_, fun p hp => ?_⟩, fun hapt => hapt.mints r hnew⟩
    · rw [Option.mem_def, hnew] at hr'
      cases hr'
      exact hapt
    · rw [Option.mem_def, hno] at hp
      cases hp
  · rw [hstep, discriminates_withdraw_iff hr h]
    refine ⟨fun hapt => ⟨fun r hr => ?_, fun p' hp => ?_⟩, fun hapt => hapt.withdraws p hw⟩
    · rw [Option.mem_def, hno] at hr
      cases hr
    · rw [Option.mem_def, hw] at hp
      cases hp
      exact hapt
  · rw [hstep]
    refine ⟨fun _ => ⟨fun r hr => ?_, fun p hp => ?_⟩, fun _ => h⟩
    · rw [Option.mem_def, hno] at hr
      cases hr
    · rw [Option.mem_def, hno'] at hp
      cases hp

end

lemma discriminates_fresh (H : Host) (seed : Vector UInt8 32) : Discriminates H (fresh seed) :=
  ⟨fun _ htok => absurd htok not_mem_nil, fun _ htok => absurd htok not_mem_nil⟩

/-- For every sequence of starts, mints, attenuations, revocations and revocations from other nodes:
only revoked tokens are rejected as revoked and different tokens have different ids, in every state
of the run, iff every event of the run is apt. -/
theorem run_discriminates_iff (H : Host) (seed : Vector UInt8 32) (events : List Event) :
    (∀ pre, pre <+: events → Discriminates H (run H seed pre)) ↔
      Along (step H) (Apt H) (fresh seed) events := by
  refine forall_prefix_iff_along (I := Readable H) (fun d e hr => hr.step e)
    (fun d e hr h => h.step_iff hr e) ?_ ?_
  · exact fun _ htok => absurd htok not_mem_nil
  · exact discriminates_fresh H seed

/-! ### One process -/

/-- The event happens in the first process of the daemon, and a revoked id is that of a token that
the daemon has minted. -/
structure Domestic (H : Host) (d : Daemon) (e : Event) : Prop where
  once : (∃ now, e = .start now) → d.minted = []
  known : ∀ p ∈ withdrawn e, p.2 ∈ d.minted ∧ ∃ c, d.Shows H p.2 c ∧ c.id = p.1

/-- How many tokens an event mints. -/
def mintCount (H : Host) (d : Daemon) (e : Event) : ℕ := (newToken H d e).toList.length

/-- After `n` tokens in one process: they have the ids from 1 to `n`, each its own, and the revoked
ids are those of revoked tokens. -/
structure Counted (H : Host) (n : ℕ) (d : Daemon) : Prop where
  length : d.minted.length = n
  next : d.issuer.next.toNat = n
  ids : ∀ tok ∈ d.minted, ∃ c k, d.Shows H tok c ∧ c.id = .formatUint k ∧ k.toNat ≤ n
  revoked : ∀ id ∈ d.issuer.revoked, ∃ tok ∈ d.minted, ∃ c, d.Shows H tok c ∧ c.id = id
  apart : Discriminates H d

namespace Counted

variable {n : ℕ}

lemma id_of_newToken (hc : Counted H n d) (hdom : Domestic H d e) {r : GoString × Issuer}
    (hnew : newToken H d e = some r) (hn : n + 1 < 2 ^ 64) : r.2.next.toNat = n + 1 := by
  obtain ⟨base, subject, rights, resource, ttl, now, rfl, hbase⟩ := eq_mint_of_newToken hnew
  have hnext : base.next.toNat = n := by
    rcases hbase with rfl | ⟨rfl, hstart⟩
    · exact hc.next
    · -- before the first token the counter is at zero
      rw [← hc.length, hdom.once hstart]
      rfl
  change (base.next + 1).toNat = n + 1
  rw [UInt64.toNat_add, hnext]
  exact Nat.mod_eq_of_lt hn

lemma id_ne (hc : Counted H n d) {k : UInt64} (hk : k.toNat = n + 1) {tok : GoString}
    (htok : tok ∈ d.minted) {c : Claims} (hshow : d.Shows H tok c) : c.id ≠ .formatUint k := by
  intro hid
  obtain ⟨c', k', hc', hid', hle⟩ := hc.ids tok htok
  obtain rfl := hshow.unique hc'
  have hkk : k' = k := GoString.formatUint_injective (hid'.symm.trans hid)
  rw [hkk] at hle
  omega

variable (hc : Counted H n d) (hdom : Domestic H d e) (hn : n + mintCount H d e < 2 ^ 64)
include hc hdom hn

lemma apt : Apt H d e := by
  refine ⟨fun r hr c hshow => ?_, fun p hp tok htok c hshow hid _ => ?_⟩
  · have hcount : mintCount H d e = 1 := by rw [mintCount, hr]; rfl
    have hk : r.2.next.toNat = n + 1 := hc.id_of_newToken hdom hr (by omega)
    obtain ⟨c', hc', hid⟩ := (issued_of_newToken hr).shows
    obtain rfl := hshow.unique hc'
    refine ⟨fun tok htok c₁ h₁ heq => ?_, fun hrev _ => ?_⟩
    · exact absurd (heq.trans hid) (hc.id_ne hk htok h₁)
    · obtain ⟨tok, htok, c₁, h₁, heq⟩ := hc.revoked _ hrev
      exact absurd (heq.trans hid) (hc.id_ne hk htok h₁)
  · obtain ⟨hmem, c', hc', hid'⟩ := hdom.known p hp
    exact .inl (hc.apart.unique tok htok p.2 hmem c c' hshow hc' (hid.trans hid'.symm))

lemma of_step : Counted H (n + mintCount H d e) (step H d e) := by
  have hr : Readable H d := fun tok htok => by
    obtain ⟨c, -, hshow, -⟩ := hc.ids tok htok
    exact ⟨c, hshow⟩
  have hapart : Discriminates H (step H d e) := (hc.apart.step_iff hr e).mpr (hc.apt hdom hn)
  rcases step_cases H d e with ⟨r, hnew, -, hstep⟩ | ⟨p, hno, hw, hstep⟩ | ⟨hno, -, hstep⟩
  · have hcount : mintCount H d e = 1 := by rw [mintCount, hnew]; rfl
    have hi : Issued H d r := issued_of_newToken hnew
    have hk : r.2.next.toNat = n + 1 := hc.id_of_newToken hdom hnew (by omega)
    rw [hstep] at hapart ⊢
    rw [hcount]
    refine ⟨congrArg (· + 1) hc.length, hk, fun tok htok => ?_, fun id hid => ?_, hapart⟩
    · rcases mem_cons.mp htok with rfl | htok
      · obtain ⟨c, hshow, hid⟩ := hi.shows
        exact ⟨c, r.2.next, hi.shows_record_iff.mpr hshow, hid, hk.le⟩
      · obtain ⟨c, k, hshow, hid, hle⟩ := hc.ids tok htok
        exact ⟨c, k, hi.shows_record_iff.mpr hshow, hid, by omega⟩
    · obtain ⟨tok, htok, c, hshow, heq⟩ := hc.revoked id (hi.revoked ▸ hid)
      exact ⟨tok, mem_cons_of_mem _ htok, c, hi.shows_record_iff.mpr hshow, heq⟩
  · have hcount : mintCount H d e = 0 := by rw [mintCount, hno]; rfl
    rw [hstep] at hapart ⊢
    rw [hcount]
    refine ⟨hc.length, hc.next, hc.ids, fun id hid => ?_, hapart⟩
    rcases mem_insert.mp hid with rfl | hid
    · obtain ⟨hmem, c, hshow, heq⟩ := hdom.known p hw
      exact ⟨p.2, hmem, c, hshow, heq⟩
    · exact hc.revoked id hid
  · have hcount : mintCount H d e = 0 := by rw [mintCount, hno]; rfl
    rw [hstep, hcount]
    exact hc

end Counted

lemma counted_fresh (H : Host) (seed : Vector UInt8 32) : Counted H 0 (fresh seed) where
  length := rfl
  next := rfl
  ids := fun _ htok => absurd htok not_mem_nil
  revoked := fun id hid => absurd hid (notMem_empty id)
  apart := discriminates_fresh H seed

/-- In one process that mints less than `2 ^ 64` tokens, and in which only tokens of the daemon are
revoked, every event is apt. -/
theorem along_apt_of_domestic (H : Host) (seed : Vector UInt8 32) (events : List Event)
    (hdom : Along (step H) (Domestic H) (fresh seed) events)
    (hcount : totalCost (step H) (mintCount H) (fresh seed) events < 2 ^ 64) :
    Along (step H) (Apt H) (fresh seed) events :=
  Along.imp_of_invariant (I := Counted H) (fun _ _ _ hc hdom hn => hc.of_step hdom hn)
    (fun _ _ _ hc hdom hn => hc.apt hdom hn) (counted_fresh H seed) hdom (by rwa [Nat.zero_add])

/-- The ids of revoked tokens are revoked. -/
def Enforced (H : Host) (d : Daemon) : Prop :=
  ∀ tok ∈ d.targets, ∃ c, d.Shows H tok c ∧ c.id ∈ d.issuer.revoked

lemma Enforced.step (h : Enforced H d) (hdom : Domestic H d e) : Enforced H (step H d e) := by
  rcases step_cases H d e with ⟨r, hnew, -, hstep⟩ | ⟨p, -, hw, hstep⟩ | ⟨-, -, hstep⟩
  · have hi : Issued H d r := issued_of_newToken hnew
    rw [hstep]
    intro tok htok
    obtain ⟨c, hshow, hid⟩ := h tok htok
    exact ⟨c, hi.shows_record_iff.mpr hshow, hi.revoked.symm ▸ hid⟩
  · rw [hstep]
    intro tok htok
    rcases mem_cons.mp htok with rfl | htok
    · obtain ⟨-, c, hshow, hid⟩ := hdom.known p hw
      exact ⟨c, hshow, hid ▸ mem_insert_self _ _⟩
    · obtain ⟨c, hshow, hid⟩ := h tok htok
      exact ⟨c, hshow, mem_insert_of_mem hid⟩
  · rwa [hstep]

/-- Revocation is exact in one process that mints less than `2 ^ 64` tokens, and in which only
tokens of the daemon are revoked: inside its window a token is rejected as revoked iff it was
revoked itself. -/
theorem revoked_iff_of_domestic (H : Host) (seed : Vector UInt8 32) (events : List Event)
    (hdom : Along (step H) (Domestic H) (fresh seed) events)
    (hcount : totalCost (step H) (mintCount H) (fresh seed) events < 2 ^ 64) (tok : GoString)
    (htok : tok ∈ (run H seed events).minted) (c : Claims)
    (hshow : (run H seed events).Shows H tok c) (now : Int64) (hnbf : c.notBefore ≤ now)
    (hexp : c.expiry = 0 ∨ now < c.expiry) :
    verify H (run H seed events).issuer now tok = .error .revoked ↔
      tok ∈ (run H seed events).targets := by
  obtain ⟨hcounted, henforced⟩ := Along.invariant (I := fun n d => Counted H n d ∧ Enforced H d)
    (fun _ _ _ h hdom hn => ⟨h.1.of_step hdom hn, h.2.step hdom⟩)
    ⟨counted_fresh H seed, fun _ htok => absurd htok not_mem_nil⟩ hdom (by rwa [Nat.zero_add])
  refine ⟨hcounted.apart.rejects tok htok now, fun htarget => ?_⟩
  obtain ⟨c', hshow', hid⟩ := henforced tok htarget
  obtain rfl := hshow.unique hshow'
  exact (verify_eq_revoked_iff hshow).mpr ⟨hnbf, hexp, hid⟩

/-! ### A restart and a foreign revocation -/

def operatorClaims (now : Int64) : Claims where
  id := .lit "1"
  subject := .lit "operator"
  rights := [.lit "admin"]
  resource := ⟨[]⟩
  notBefore := now
  expiry := now + 86400

def operatorToken (now : Int64) : GoString :=
  text sampleHost sampleIssuer.seed (operatorClaims now)

lemma operatorToken_ne : operatorToken 0 ≠ operatorToken 100 := by
  intro h
  have h₀ := read_text (H := sampleHost) sampleIssuer.seed (operatorClaims 0)
  have h₁ := read_text (H := sampleHost) sampleIssuer.seed (operatorClaims 100)
  change read _ _ (operatorToken 0) = _ at h₀
  change read _ _ (operatorToken 100) = _ at h₁
  rw [h, h₁] at h₀
  have hnbf : (100 : Int64) = 0 := congrArg Claims.notBefore (Except.ok.inj h₀)
  exact absurd hnbf (by decide)

/-- The operator's token is revoked, and it is rejected. -/
theorem revoked_iff_of_domestic_operator :
    verify sampleHost (run sampleHost sampleIssuer.seed
      [.start 0, .revoke (.lit "1") (operatorToken 0) true]).issuer 7 (operatorToken 0) =
        .error .revoked := by
  have hread : read sampleHost (sampleHost.ed25519.publicKey sampleIssuer.seed)
      (operatorToken 0) = .ok (operatorClaims 0).coerced :=
    read_text sampleIssuer.seed (operatorClaims 0)
  have hdom : Along (step sampleHost) (Domestic sampleHost) (fresh sampleIssuer.seed)
      [.start 0, .revoke (.lit "1") (operatorToken 0) true] := by
    refine ⟨⟨fun _ => rfl, nofun⟩, ⟨nofun, fun p hp => ?_⟩, trivial⟩
    cases hp
    exact ⟨List.mem_cons_self, _, hread, rfl⟩
  exact (revoked_iff_of_domestic sampleHost sampleIssuer.seed _ hdom (by decide) _
    List.mem_cons_self _ hread 7 (by decide) (by decide)).mpr List.mem_cons_self

/-- The operator's token is revoked and the daemon is started again: the new operator's token has
the id of the old one and is rejected as revoked, though nobody has revoked it. The same happens
without a restart, when another node revokes the first token that it has minted itself. -/
theorem new_operator_is_revoked :
    (∃ d, d = run sampleHost sampleIssuer.seed
        [.start 0, .revoke (.lit "1") (operatorToken 0) true, .start 100] ∧
      operatorToken 0 ∈ d.minted ∧ operatorToken 100 ∈ d.minted ∧
      operatorToken 0 ≠ operatorToken 100 ∧ operatorToken 100 ∉ d.targets ∧
      (∃ c c', d.Shows sampleHost (operatorToken 0) c ∧
        d.Shows sampleHost (operatorToken 100) c' ∧ c.id = c'.id) ∧
      verify sampleHost d.issuer 100 (operatorToken 100) = .error .revoked) ∧
    ∀ foreign, foreign ≠ operatorToken 0 → ∃ d, d = run sampleHost sampleIssuer.seed
        [.start 0, .gossip (some ⟨.lit "1", ⟨[]⟩⟩) foreign true] ∧
      operatorToken 0 ∈ d.minted ∧ operatorToken 0 ∉ d.targets ∧
      verify sampleHost d.issuer 0 (operatorToken 0) = .error .revoked := by
  have hread : ∀ now, read sampleHost (sampleHost.ed25519.publicKey sampleIssuer.seed)
      (operatorToken now) = .ok (operatorClaims now).coerced :=
    fun now => read_text sampleIssuer.seed (operatorClaims now)
  refine ⟨⟨_, rfl, ?_, ?_, operatorToken_ne, ?_, ⟨_, _, hread 0, hread 100, rfl⟩, ?_⟩,
    fun foreign hforeign => ⟨_, rfl, ?_, ?_, ?_⟩⟩
  · exact mem_cons_of_mem _ List.mem_cons_self
  · exact List.mem_cons_self
  · exact fun h => operatorToken_ne (List.mem_singleton.mp h).symm
  · have hshow : (run sampleHost sampleIssuer.seed [.start 0,
        .revoke (.lit "1") (operatorToken 0) true, .start 100]).Shows sampleHost
        (operatorToken 100) (operatorClaims 100).coerced := hread 100
    exact (verify_eq_revoked_iff hshow).mpr ⟨by decide, by decide, mem_insert_self _ _⟩
  · exact List.mem_cons_self
  · exact fun h => hforeign (List.mem_singleton.mp h).symm
  · have hshow : (run sampleHost sampleIssuer.seed [.start 0,
        .gossip (some ⟨.lit "1", ⟨[]⟩⟩) foreign true]).Shows sampleHost
        (operatorToken 0) (operatorClaims 0).coerced := hread 0
    exact (verify_eq_revoked_iff hshow).mpr ⟨by decide, by decide, mem_insert_self _ _⟩

end Cerberus.Token
