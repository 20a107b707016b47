import Cerberus.Envelope.Narrowing
import Cerberus.Token.Attenuation

/-!
# The scope of a token

A token names a resource as its scope, and `allows` compares the resource of a request with it as
strings. The signed capabilities of the same package compare by whole segments (`hasPathPrefix`).
The two differ on requests that name no resource, and on resources that go on inside the last
segment of the scope (`Overshoots`): a token for `/a` is good for `/ab`.
-/

namespace Cerberus.Token

open Foundation List

open Envelope (hasPathPrefix hasPathPrefix_iff PathWithin)

/-- The resource goes on after the scope inside a segment. -/
def Overshoots (scope resource : GoString) : Prop :=
  scope.bytes.getLast? ≠ some 0x2F ∧
    ∃ b rest, resource.bytes = scope.bytes ++ b :: rest ∧ b ≠ 0x2F

variable {H : Host} {iss : Issuer} {now : Int64} {token right scope resource : GoString}
  {c : Claims}

lemma hasPathPrefix_iff_of_hasPrefix (hscope : scope ≠ ⟨[]⟩)
    (h : resource.hasPrefix scope = true) :
    hasPathPrefix resource scope = true ↔ ¬ Overshoots scope resource := by
  obtain ⟨rest, hrest⟩ := List.isPrefixOf_iff_prefix.mp h
  rw [hasPathPrefix_iff, PathWithin, Overshoots]
  constructor
  · rintro (hnil | rfl | ⟨rest', hrest', hnext⟩) ⟨hlast, b, more, hmore, hb⟩
    · exact hscope hnil
    · simp at hmore
    · obtain rfl : rest' = b :: more := append_cancel_left (hrest'.symm.trans hmore)
      rcases hnext with hslash | hslash
      · exact hlast hslash
      · exact hb (Option.some.inj hslash)
  · intro hno
    obtain _ | ⟨b, more⟩ := rest
    · exact .inr (.inl (GoString.ext (by rw [← hrest, append_nil])))
    · refine .inr (.inr ⟨b :: more, hrest.symm, ?_⟩)
      by_contra hneither
      obtain ⟨hlast, hb⟩ := not_or.mp hneither
      exact hno ⟨hlast, b, more, hrest.symm, fun heq => hb (congrArg some heq)⟩

lemma hasPathPrefix_nil (hscope : scope ≠ ⟨[]⟩) : hasPathPrefix ⟨[]⟩ scope = false := by
  rw [← Bool.not_eq_true, hasPathPrefix_iff, PathWithin]
  rintro (hnil | hnil | ⟨rest, hrest, -⟩)
  · exact hscope hnil
  · exact hscope hnil.symm
  · exact hscope (GoString.ext (append_eq_nil_iff.mp hrest.symm).1)

/-- A request that is allowed is in the subtree of the scope iff it names a resource and does
not go on inside a segment. -/
lemma Claims.hasPathPrefix_iff_of_allows (hscope : c.resource ≠ ⟨[]⟩)
    (h : c.allows right resource = true) :
    hasPathPrefix resource c.resource = true ↔
      resource ≠ ⟨[]⟩ ∧ ¬ Overshoots c.resource resource := by
  rcases (allows_iff.mp h).2 with rfl | hpre
  · rw [hasPathPrefix_nil hscope]
    exact iff_of_false Bool.false_ne_true fun hno => hno.1 rfl
  · have hne : resource ≠ ⟨[]⟩ := by
      rintro rfl
      obtain ⟨rest, hrest⟩ := List.isPrefixOf_iff_prefix.mp hpre
      exact hscope (GoString.ext (append_eq_nil_iff.mp hrest).1)
    rw [hasPathPrefix_iff_of_hasPrefix hscope hpre]
    exact (and_iff_right hne).symm

lemma exists_overshoots (h : scope.bytes.getLast? ≠ some 0x2F) :
    ∃ resource, resource ≠ ⟨[]⟩ ∧ resource.hasPrefix scope = true ∧ Overshoots scope resource := by
  refine ⟨⟨scope.bytes ++ [0x62]⟩, fun hnil => ?_, ?_, h, 0x62, [], rfl, by decide⟩
  · exact absurd (GoString.ext_iff.mp hnil) (by simp)
  · exact List.isPrefixOf_iff_prefix.mpr (prefix_append _ _)

/-- For every token that is accepted and has a scope: a request that is authorized is in the subtree
of the scope iff it names a resource and does not go on after the scope inside a segment. So
all authorized requests that name a resource are in the subtree iff the scope ends with a
slash or the token grants no right, and all authorized requests only in the latter case. -/
theorem scope_subtree_iff (hverify : verify H iss now token = .ok c)
    (hscope : c.resource ≠ ⟨[]⟩) :
    (∀ right resource, (∃ c', authorize H iss now token right resource = .ok c') →
      (hasPathPrefix resource c.resource = true ↔
        resource ≠ ⟨[]⟩ ∧ ¬ Overshoots c.resource resource)) ∧
    ((∀ right resource, (∃ c', authorize H iss now token right resource = .ok c') →
      resource ≠ ⟨[]⟩ → hasPathPrefix resource c.resource = true) ↔
        c.rights = [] ∨ c.resource.bytes.getLast? = some 0x2F) ∧
    ((∀ right resource, (∃ c', authorize H iss now token right resource = .ok c') →
      hasPathPrefix resource c.resource = true) ↔ c.rights = []) := by
  obtain ⟨hread, hlive⟩ := verify_eq_ok_iff.mp hverify
  have hauth : ∀ right resource, (∃ c', authorize H iss now token right resource = .ok c') ↔
      c.allows right resource = true := by
    intro right resource
    rw [authorize_iff hread]
    exact and_iff_right hlive
  simp only [hauth]
  -- a token without rights allows nothing, any other one allows its first right
  have hnone : c.rights = [] → ∀ right resource, c.allows right resource ≠ true := by
    intro hnil right resource hallows
    obtain ⟨⟨r, hr, -⟩, -⟩ := Claims.allows_iff.mp hallows
    rw [hnil] at hr
    exact not_mem_nil hr
  have hsome : c.rights ≠ [] → ∃ right, ∀ resource, resource = ⟨[]⟩ ∨
      resource.hasPrefix c.resource = true → c.allows right resource = true := by
    intro hne
    obtain ⟨right, hright⟩ := exists_mem_of_ne_nil _ hne
    exact ⟨right, fun resource hres => Claims.allows_iff.mpr ⟨⟨right, hright, .inl rfl⟩, hres⟩⟩
  refine ⟨fun right resource => Claims.hasPathPrefix_iff_of_allows hscope, ⟨fun hall => ?_, ?_⟩,
    fun hall => ?_, fun hnil right resource hallows => absurd hallows (hnone hnil _ _)⟩
  · by_contra hneither
    obtain ⟨hrights, hlast⟩ := not_or.mp hneither
    obtain ⟨right, hallows⟩ := hsome hrights
    obtain ⟨resource, hne, hpre, hover⟩ := exists_overshoots hlast
    have hin := hall right resource (hallows _ (.inr hpre)) hne
    exact (hasPathPrefix_iff_of_hasPrefix hscope hpre).mp hin hover
  · rintro (hnil | hlast) right resource hallows hne
    · exact absurd hallows (hnone hnil _ _)
    · exact (Claims.hasPathPrefix_iff_of_allows hscope hallows).mpr ⟨hne, fun hover => hover.1 hlast⟩
  · by_contra hrights
    obtain ⟨right, hallows⟩ := hsome hrights
    have hin := hall right ⟨[]⟩ (hallows _ (.inl rfl))
    rw [hasPathPrefix_nil hscope] at hin
    exact Bool.false_ne_true hin

lemma verify_parentClaims :
    verify sampleHost sampleIssuer 10 (text sampleHost sampleIssuer.seed parentClaims) =
      .ok parentClaims := by
  have hread := read_text (H := sampleHost) sampleIssuer.seed parentClaims
  have hclaims : parentClaims.coerced = parentClaims := by decide
  rw [hclaims] at hread
  exact verify_eq_ok_iff.mpr ⟨hread, by decide, by decide, by decide⟩

theorem scope_of_parentClaims :
    ¬ ∀ right resource, (∃ c', authorize sampleHost sampleIssuer 10
        (text sampleHost sampleIssuer.seed parentClaims) right resource = .ok c') →
      hasPathPrefix resource parentClaims.resource = true := by
  rw [(scope_subtree_iff verify_parentClaims (by decide)).2.2]
  decide

/-- A token to read under `/a` is good for reading `/ab`, and for a request that names no resource;
neither is in the subtree of `/a`. -/
theorem sibling_authorized :
    (∃ c, authorize sampleHost sampleIssuer 10
        (text sampleHost sampleIssuer.seed parentClaims) (.lit "read") (.lit "/ab") = .ok c) ∧
      hasPathPrefix (.lit "/ab") (.lit "/a") = false ∧
      (∃ c, authorize sampleHost sampleIssuer 10
        (text sampleHost sampleIssuer.seed parentClaims) (.lit "read") ⟨[]⟩ = .ok c) ∧
      hasPathPrefix ⟨[]⟩ (.lit "/a") = false := by
  have hlive : parentClaims.coerced.Live sampleIssuer 10 := ⟨by decide, by decide, by decide⟩
  refine ⟨(authorize_text_iff sampleIssuer parentClaims).mpr ⟨hlive, by decide⟩, by decide,
    (authorize_text_iff sampleIssuer parentClaims).mpr ⟨hlive, by decide⟩, by decide⟩

end Cerberus.Token
