import Cerberus.Envelope.Codec
import Cerberus.Foundation.Path

/-!
# What the narrowing check ensures

A child grant is within its parent when it has at most the parent's rights, resource, quota and
validity window and at least its caveats (`Narrower`). The check of `signedcap.go` compares rights,
caveat keys, paths, quotas and windows (`Passes`). It does not look at the kind and the node of the
resource, and a caveat key is a text in which operation and value run into each other, so a caveat
may be masked by another one (`Masked`). What the check compares is reflexive and transitive
(`checkNarrower_preorder`).
-/

namespace Cerberus.Envelope

open Foundation Contract List

/-- The bound of a quota in one dimension; no quota and zero are no bound. -/
def limit (q : Option Quota) (dim : Quota → UInt64) : WithTop ℕ :=
  match q with
  | none => ⊤
  | some q => if dim q = 0 then ⊤ else ((dim q).toNat : WithTop ℕ)

/-- The child has at most what the parent has, and at least its caveats. -/
structure Narrower (parent child : Grant) : Prop where
  rights : child.rights ⊆ parent.rights
  caveats : parent.caveats ⊆ child.caveats
  kind : child.resource.kind = parent.resource.kind
  node : child.resource.node = parent.resource.node
  path : child.resource.path.Inside parent.resource.path
  quota : ∀ dim ∈ [Quota.bytes, Quota.flops, Quota.secs],
    limit child.resource.quota dim ≤ limit parent.resource.quota dim
  window : ∀ now, InWindow child now → InWindow parent now

/-- A path is another one or goes on after it with a new segment; every path is within the empty
one. -/
def PathWithin (sub base : GoString) : Prop :=
  base = ⟨[]⟩ ∨ sub = base ∨ ∃ rest, sub.bytes = base.bytes ++ rest ∧
    (base.bytes.getLast? = some 0x2F ∨ rest.head? = some 0x2F)

/-- A quota bounds what another one bounds, by at most its bounds; zero is no bound. -/
def QuotaWithin (p c : Option Quota) : Prop :=
  ∀ q ∈ p, ∃ q' ∈ c, ∀ dim ∈ [Quota.bytes, Quota.flops, Quota.secs],
    dim q = 0 ∨ dim q' ≠ 0 ∧ dim q' ≤ dim q

/-- What the check compares: rights, the keys of the caveats, paths, quotas and windows. -/
structure Passes (H : Host) (parent child : Grant) : Prop where
  rights : child.rights ⊆ parent.rights
  keys : ∀ c ∈ parent.caveats, ∃ d ∈ child.caveats,
    caveatKey H.floatText d = caveatKey H.floatText c
  path : PathWithin child.resource.path parent.resource.path
  quota : QuotaWithin parent.resource.quota child.resource.quota
  notBefore : parent.notBefore ≤ child.notBefore
  expiry : parent.expiry = 0 ∨ child.expiry ≠ 0 ∧ child.expiry ≤ parent.expiry

/-- A caveat of the parent whose key only other caveats of the child have. -/
def Masked (H : Host) (parent child : Grant) : Prop :=
  ∃ c ∈ parent.caveats, (∃ d ∈ child.caveats, caveatKey H.floatText d = caveatKey H.floatText c) ∧
    ∀ d ∈ child.caveats, caveatKey H.floatText d = caveatKey H.floatText c → d ≠ c

/-- The operation has no equals sign and the value is a string. -/
def PlainCaveat (c : Caveat) : Prop := 0x3D ∉ c.op.bytes ∧ ∃ s, c.val = .string s

variable {H : Host} {parent child : Grant}

/-! ### Paths -/

/-- The test of a prefix on whole segments. -/
lemma hasPathPrefix_iff {sub base : GoString} :
    hasPathPrefix sub base = true ↔ PathWithin sub base := by
  rw [hasPathPrefix, PathWithin]
  split_ifs with h₁ h₂
  · exact iff_of_true rfl (h₁.imp_right .inl)
  · refine iff_of_false not_false ?_
    rintro (hempty | hself | ⟨rest, hrest, -⟩)
    · exact h₁ (.inl hempty)
    · exact h₁ (.inr hself)
    · rcases h₂ with hlen | htake
      · rw [hrest, length_append] at hlen
        omega
      · rw [hrest, take_left'] at htake
        exacts [htake rfl, rfl]
  · rw [not_or, not_lt, not_not] at h₂
    rw [not_or] at h₁
    have hsub : sub.bytes = base.bytes ++ sub.bytes.drop base.bytes.length := by
      nth_rewrite 1 [← take_append_drop base.bytes.length sub.bytes]
      rw [h₂.2]
    rw [or_iff_right h₁.1, or_iff_right h₁.2, Bool.or_eq_true, decide_eq_true_eq,
      decide_eq_true_eq, ← List.head?_drop]
    constructor
    · intro hnext
      exact ⟨_, hsub, hnext⟩
    · rintro ⟨rest, hrest, hnext⟩
      rw [hrest, drop_left']
      exacts [hnext, rfl]

lemma PathWithin.inside {sub base : GoString} (h : PathWithin sub base) : sub.Inside base := by
  rcases h with rfl | rfl | ⟨rest, hrest, hnext⟩
  · exact .inl rfl
  · exact GoString.inside_self _
  · obtain rfl : sub = ⟨base.bytes ++ rest⟩ := GoString.ext hrest
    exact GoString.inside_of_append hnext

lemma PathWithin.trans {a b c : GoString} (hab : PathWithin b a) (hbc : PathWithin c b) :
    PathWithin c a := by
  rcases hab with rfl | rfl | ⟨rest, hrest, hnext⟩
  · exact .inl rfl
  · exact hbc
  · rcases hbc with rfl | rfl | ⟨rest', hrest', -⟩
    · have hempty : a.bytes = [] := (append_eq_nil_iff.mp hrest.symm).1
      exact .inl (GoString.ext hempty)
    · exact .inr (.inr ⟨rest, hrest, hnext⟩)
    · refine .inr (.inr ⟨rest ++ rest', ?_, hnext.imp_right fun hhead => ?_⟩)
      · rw [hrest', hrest, append_assoc]
      · rw [List.head?_append, hhead]
        rfl

/-! ### Quotas -/

/-- A bound exceeds another one unless that is none, or it is a bound that is not larger. -/
lemma exceeds_eq_false_iff {a b : UInt64} : exceeds a b = false ↔ a = 0 ∨ b ≠ 0 ∧ b ≤ a := by
  simp only [exceeds, Bool.and_eq_false_iff, decide_eq_false_iff_not, not_not,
    Bool.or_eq_false_iff, UInt64.not_lt]

lemma quotaNarrower_eq_ok_iff {p c : Option Quota} :
    quotaNarrower p c = .ok () ↔ QuotaWithin p c := by
  simp only [QuotaWithin, ← exceeds_eq_false_iff]
  cases p with
  | none => simp [quotaNarrower]
  | some q =>
    cases c with
    | none => simp [quotaNarrower]
    | some q' =>
      simp only [quotaNarrower, Option.mem_def, Option.some.injEq, exists_eq_left', forall_eq',
        mem_cons, not_mem_nil, or_false, forall_eq_or_imp, forall_eq]
      split_ifs with hbytes hflops hsecs <;> simp_all

namespace QuotaWithin

lemma limit_le {p c : Option Quota} (h : QuotaWithin p c) {dim : Quota → UInt64}
    (hdim : dim ∈ [Quota.bytes, Quota.flops, Quota.secs]) : limit c dim ≤ limit p dim := by
  rcases p with _ | q
  · exact le_top
  · obtain ⟨q', rfl, hle⟩ := h q rfl
    simp only [limit]
    rcases hle dim hdim with hzero | ⟨hne, hle⟩
    · rw [if_pos hzero]
      exact le_top
    · rw [if_neg hne]
      split_ifs
      · exact le_top
      · exact WithTop.coe_le_coe.mpr (UInt64.le_iff_toNat_le.mp hle)

lemma refl (q : Option Quota) : QuotaWithin q q := fun q' hq' =>
  ⟨q', hq', fun dim _ => (em (dim q' = 0)).imp_right fun hne => ⟨hne, UInt64.le_refl _⟩⟩

lemma trans {a b c : Option Quota} (hab : QuotaWithin a b) (hbc : QuotaWithin b c) :
    QuotaWithin a c := by
  intro q hq
  obtain ⟨q', hq', hle⟩ := hab q hq
  obtain ⟨q'', hq'', hle'⟩ := hbc q' hq'
  refine ⟨q'', hq'', fun dim hdim => (hle dim hdim).imp_right fun ⟨hne, hle⟩ => ?_⟩
  obtain ⟨hne', hle'⟩ := (hle' dim hdim).resolve_left hne
  exact ⟨hne', UInt64.le_trans hle' hle⟩

end QuotaWithin

/-! ### The check -/

/-- The check passes exactly when its comparisons do. -/
lemma checkNarrower_eq_ok_iff : checkNarrower H parent child = .ok () ↔ Passes H parent child := by
  rw [checkNarrower]
  constructor
  · intro h
    split at h
    · cases h
    rename_i hrights
    dsimp only at h
    split at h
    · cases h
    rename_i hkeys
    split at h
    · cases h
    rename_i hpath
    split at h
    · cases h
    rename_i hquota
    split_ifs at h with hnbf hexp
    rw [List.find?_eq_none] at hrights hkeys
    refine ⟨fun r hr => ?_, fun c hc => ?_, ?_, quotaNarrower_eq_ok_iff.mp hquota,
      Int64.not_lt.mp hnbf, ?_⟩
    · simpa using hrights r hr
    · simpa using hkeys c hc
    · rw [not_and_or, not_not, Bool.not_eq_false] at hpath
      exact hpath.elim .inl hasPathPrefix_iff.mp
    · rw [not_and_or, not_not, not_or] at hexp
      exact hexp.imp_right fun ⟨hne, hle⟩ => ⟨hne, Int64.not_lt.mp hle⟩
  · intro h
    have hrights : child.rights.find? (· ∉ parent.rights) = none := by
      rw [List.find?_eq_none]
      intro r hr
      simpa using h.rights hr
    have hkeys : parent.caveats.find?
        (caveatKey H.floatText · ∉ child.caveats.map (caveatKey H.floatText)) = none := by
      rw [List.find?_eq_none]
      intro c hc
      simpa using h.keys c hc
    have hpath : ¬ (parent.resource.path ≠ ⟨[]⟩ ∧
        hasPathPrefix child.resource.path parent.resource.path = false) := fun hno =>
      Bool.false_ne_true (hno.2.symm.trans (hasPathPrefix_iff.mpr h.path))
    have hexp : ¬ (parent.expiry ≠ 0 ∧ (child.expiry = 0 ∨ parent.expiry < child.expiry)) := by
      rw [not_and_or, not_not, not_or]
      exact h.expiry.imp_right fun ⟨hne, hle⟩ => ⟨hne, Int64.not_lt.mpr hle⟩
    rw [hrights]
    dsimp only
    rw [hkeys]
    dsimp only
    rw [if_neg hpath, quotaNarrower_eq_ok_iff.mpr h.quota]
    dsimp only
    rw [if_neg (Int64.not_lt.mpr h.notBefore), if_neg hexp]

lemma Passes.window (h : Passes H parent child) (now : Int64) (hw : InWindow child now) :
    InWindow parent now := by
  refine ⟨Int64.le_trans h.notBefore hw.1, ?_⟩
  refine h.expiry.imp_right fun ⟨hne, hle⟩ => ?_
  exact Int64.lt_of_lt_of_le (hw.2.resolve_left hne) hle

/-- A child that passes keeps the caveats of its parent exactly when none is masked. -/
lemma Passes.caveats_iff (h : Passes H parent child) :
    parent.caveats ⊆ child.caveats ↔ ¬ Masked H parent child := by
  constructor
  · rintro hsub ⟨c, hc, -, hother⟩
    exact hother c (hsub hc) rfl rfl
  · intro hmasked c hc
    by_contra hno
    exact hmasked ⟨c, hc, h.keys c hc, fun d hd _ heq => hno (heq ▸ hd)⟩

/-- The first occurrence of a separator splits a text in one way. -/
lemma append_cons_inj {a b s t : List UInt8} {x : UInt8} (ha : x ∉ a) (hb : x ∉ b)
    (h : a ++ x :: s = b ++ x :: t) : a = b ∧ s = t := by
  induction a generalizing b with
  | nil =>
    cases b with
    | nil => exact ⟨rfl, (List.cons.inj h).2⟩
    | cons y b => exact absurd (List.cons.inj h).1 fun heq => hb (heq ▸ mem_cons_self)
  | cons y a ih =>
    cases b with
    | nil => exact absurd (List.cons.inj h).1 fun heq => ha (heq ▸ mem_cons_self)
    | cons z b =>
      obtain ⟨rfl, htail⟩ := List.cons.inj h
      obtain ⟨rfl, rfl⟩ := ih (fun hx => ha (mem_cons_of_mem _ hx))
        (fun hx => hb (mem_cons_of_mem _ hx)) htail
      exact ⟨rfl, rfl⟩

/-- Plain caveats with one key are equal. -/
lemma eq_of_caveatKey_eq {c d : Caveat} (hc : PlainCaveat c) (hd : PlainCaveat d)
    (h : caveatKey H.floatText d = caveatKey H.floatText c) : d = c := by
  obtain ⟨cop, cval⟩ := c
  obtain ⟨dop, dval⟩ := d
  obtain ⟨hcop, s, rfl⟩ := hc
  obtain ⟨hdop, t, rfl⟩ := hd
  have hbytes : dop.bytes ++ 0x3D :: t.bytes = cop.bytes ++ 0x3D :: s.bytes := by
    have hkey := congrArg GoString.bytes h
    simp only [caveatKey, formatVal, GoString.bytes_append, append_assoc] at hkey
    exact hkey
  obtain ⟨hop, hval⟩ := append_cons_inj hdop hcop hbytes
  obtain rfl : dop = cop := GoString.ext hop
  obtain rfl : t = s := GoString.ext hval
  rfl

/-- The check is sound for a parent and a child, unless all that it compares is narrower and the
child is of another kind or on another node, or masks a caveat of the parent. Plain caveats are not
masked. -/
theorem checkNarrower_sound_iff (H : Host) (parent child : Grant) :
    ((checkNarrower H parent child = .ok () → Narrower parent child) ↔
      (Passes H parent child →
        child.resource.kind = parent.resource.kind ∧ child.resource.node = parent.resource.node ∧
          ¬ Masked H parent child)) ∧
    ((∀ c ∈ parent.caveats, PlainCaveat c) → (∀ c ∈ child.caveats, PlainCaveat c) →
      ¬ Masked H parent child) := by
  rw [checkNarrower_eq_ok_iff]
  refine ⟨⟨fun h hp => ?_, fun h hp => ?_⟩, ?_⟩
  · exact ⟨(h hp).kind, (h hp).node, hp.caveats_iff.mp (h hp).caveats⟩
  · obtain ⟨hkind, hnode, hmasked⟩ := h hp
    exact ⟨hp.rights, hp.caveats_iff.mpr hmasked, hkind, hnode, hp.path.inside,
      fun _ hdim => hp.quota.limit_le hdim, hp.window⟩
  · rintro hparent hchild ⟨c, hc, ⟨d, hd, hkey⟩, hother⟩
    exact hother d hd hkey (eq_of_caveatKey_eq (hparent c hc) (hchild d hd) hkey)

def caveatedGrant : Grant := { sampleGrant with caveats := [⟨.lit "a", .string (.lit "b=c")⟩] }

def widenedGrant : Grant :=
  { sampleGrant with
    resource := ⟨.lit "wallet", Vector.replicate 32 9, .lit "/cer/fs", some ⟨8, 0, 0⟩⟩
    caveats := [⟨.lit "a=b", .string (.lit "c")⟩] }

/-- A child of another kind, on another node and without the caveat of its parent passes the
check. -/
theorem widened_child_passes :
    checkNarrower sampleHost caveatedGrant widenedGrant = .ok () ∧
      widenedGrant.resource.kind ≠ caveatedGrant.resource.kind ∧
      widenedGrant.resource.node ≠ caveatedGrant.resource.node ∧
      ¬ caveatedGrant.caveats ⊆ widenedGrant.caveats ∧
      ¬ Narrower caveatedGrant widenedGrant := by
  refine ⟨by decide +kernel, by decide, by decide, by decide, fun h => ?_⟩
  exact absurd h.kind (by decide)

/-! ### Chains -/

lemma Passes.refl (H : Host) (g : Grant) : Passes H g g where
  rights := List.Subset.refl _
  keys c hc := ⟨c, hc, rfl⟩
  path := .inr (.inl rfl)
  quota := .refl _
  notBefore := Int64.le_refl _
  expiry := by
    by_cases hzero : g.expiry = 0
    · exact .inl hzero
    · exact .inr ⟨hzero, Int64.le_refl _⟩

lemma Passes.trans {grandchild : Grant} (h : Passes H parent child)
    (h' : Passes H child grandchild) : Passes H parent grandchild where
  rights := List.Subset.trans h'.rights h.rights
  keys c hc := by
    obtain ⟨d, hd, hkey⟩ := h.keys c hc
    obtain ⟨e, he, hkey'⟩ := h'.keys d hd
    exact ⟨e, he, hkey'.trans hkey⟩
  path := h.path.trans h'.path
  quota := h.quota.trans h'.quota
  notBefore := Int64.le_trans h.notBefore h'.notBefore
  expiry := by
    rcases h.expiry with hzero | ⟨hne, hle⟩
    · exact .inl hzero
    · obtain ⟨hne', hle'⟩ := h'.expiry.resolve_left hne
      exact .inr ⟨hne', Int64.le_trans hle' hle⟩

/-- The check is a preorder: every grant passes it against itself, what passes it against a grant
that passes it against a third one does so against the third one, and so does every grant of a chain
of accepted delegations against the root, however long the chain is. -/
theorem checkNarrower_preorder (H : Host) :
    (∀ g, checkNarrower H g g = .ok ()) ∧
    (∀ a b c, checkNarrower H a b = .ok () → checkNarrower H b c = .ok () →
      checkNarrower H a c = .ok ()) ∧
    ∀ root gs, List.IsChain (fun parent child => checkNarrower H parent child = .ok ())
      (root :: gs) → ∀ g ∈ root :: gs, checkNarrower H root g = .ok () := by
  have hrefl : ∀ g, checkNarrower H g g = .ok () := fun g =>
    checkNarrower_eq_ok_iff.mpr (.refl H g)
  have htrans : ∀ a b c, checkNarrower H a b = .ok () → checkNarrower H b c = .ok () →
      checkNarrower H a c = .ok () := by
    intro a b c hab hbc
    rw [checkNarrower_eq_ok_iff] at hab hbc ⊢
    exact hab.trans hbc
  refine ⟨hrefl, htrans, fun root gs hchain g hg => ?_⟩
  have : IsTrans Grant fun parent child => checkNarrower H parent child = .ok () := ⟨htrans⟩
  rcases List.mem_cons.mp hg with rfl | hg
  · exact hrefl g
  · exact hchain.rel_cons hg

/-- A grandchild of the sample grant, with a shorter window and below its path, is accepted against
its grandparent. -/
theorem sampleGrandchild_passes :
    checkNarrower sampleHost sampleGrant
      { sampleGrant with
        resource := { sampleGrant.resource with path := .lit "/cer/fs/a/b" }, expiry := 15 } =
      .ok () :=
  (checkNarrower_preorder sampleHost).2.1 sampleGrant
    { sampleGrant with resource := { sampleGrant.resource with path := .lit "/cer/fs/a" } } _
    (by decide +kernel) (by decide +kernel)

end Cerberus.Envelope
