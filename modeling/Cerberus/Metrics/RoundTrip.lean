import Cerberus.Metrics.Model

/-!
# Rendered metrics parse back

Every line that `Render` writes ends with the only line break in it: names and values have none, and
in help texts they are escaped. The first bytes of a line say what it is. Comments are skipped; a
line with a value is cut at its only space.
-/

namespace Cerberus.Metrics

open Foundation List GoString
open Finmap hiding mem_singleton

variable {N : Numbers} {r r' : Registry} {s t name : GoString} {l : List UInt8}

/-! ### Tokens -/

lemma IsToken.append (hs : IsToken s) (ht : IsToken t) : IsToken (s ++ t) :=
  ⟨fun h => hs.1 (append_eq_nil_iff.mp h).1, fun b hb =>
    (mem_append.mp hb).elim (hs.2 b) (ht.2 b)⟩

lemma isToken_formatUint (n : UInt64) : IsToken (.formatUint n) := by
  refine ⟨fun h => Nat.toDigits_ne_nil (map_eq_nil_iff.mp h), fun b hb => ?_⟩
  obtain ⟨c, hc, rfl⟩ := mem_map.mp hb
  have hd := Nat.isDigit_of_mem_toDigits (by decide) (by decide) hc
  simp only [Char.isDigit, Bool.and_eq_true, decide_eq_true_eq] at hd
  have hlow : 48 ≤ c.toNat := UInt32.le_iff_toNat_le.mp hd.1
  have hhigh : c.toNat ≤ 57 := UInt32.le_iff_toNat_le.mp hd.2
  rw [UInt8.le_iff_toNat_le, UInt8.le_iff_toNat_le, Nat.toUInt8_eq, UInt8.toNat_ofNat',
    Nat.mod_eq_of_lt (by omega)]
  exact ⟨hlow.trans' (by decide), hhigh.trans (by decide)⟩

lemma isToken_formatInt (n : Int64) : IsToken (formatInt n) := by
  have hminus : IsToken (.lit "-") := by
    unfold IsToken
    decide +kernel
  unfold formatInt
  split_ifs
  · exact hminus.append (isToken_formatUint _)
  · exact isToken_formatUint _

lemma isToken_token (v : Value) : IsToken (v.token N) := by
  rcases v with n | f
  · exact isToken_formatUint n
  · have hspecial : IsToken (.lit "+Inf") ∧ IsToken (.lit "-Inf") ∧ IsToken (.lit "NaN") := by
      unfold IsToken
      decide +kernel
    rw [Value.token, formatFloat]
    split_ifs
    · exact hspecial.1
    · exact hspecial.2.1
    · exact hspecial.2.2
    · rcases N.whole f with _ | n
      · exact N.token_formatG f
      · exact isToken_formatInt n

lemma isSome_parseFloat_token (v : Value) : (N.parseFloat (v.token N)).isSome = true := by
  rcases v with n | f
  · exact N.parse_uint n
  · exact N.parse_float f

lemma of_mem_validName (h : validName name = true) {b : UInt8} (hb : b ∈ name.bytes) :
    0x21 ≤ b ∧ b ≤ 0x7E ∧ b ≠ 0x7B ∧ b ≠ 0x23 := by
  have hbyte : (isNameStart b || (0x30 ≤ b && b ≤ 0x39)) = true := by
    unfold validName at h
    rcases hname : name.bytes with _ | ⟨a, bs⟩
    · rw [hname] at h
      cases h
    · rw [hname] at h hb
      simp only [Bool.and_eq_true, all_eq_true] at h
      rcases mem_cons.mp hb with rfl | hb
      · rw [h.1, Bool.true_or]
      · exact h.2 b hb
  simp only [isNameStart, Bool.or_eq_true, decide_eq_true_eq, Bool.and_eq_true] at hbyte
  grind

lemma isToken_of_validName (h : validName name = true) : IsToken name := by
  refine ⟨fun hnil => ?_, fun b hb => ⟨(of_mem_validName h hb).1, (of_mem_validName h hb).2.1⟩⟩
  rw [validName, hnil] at h
  cases h

lemma IsToken.notMem (hs : IsToken s) {b : UInt8} (hb : b < 0x21) : b ∉ s.bytes := fun hmem =>
  absurd (hs.2 b hmem).1 (UInt8.not_le.mpr hb)

lemma IsToken.ascii (hs : IsToken s) : ∀ b ∈ s.bytes, b < 0x80 := fun b hb =>
  UInt8.lt_of_le_of_lt (hs.2 b hb).2 (by decide)

lemma IsToken.trimSpace (hs : IsToken s) : s.trimSpace = s :=
  trimSpace_eq_self hs.ascii (fun b hb => (hs.2 b (mem_of_head? hb)).1)
    fun b hb => (hs.2 b (mem_of_getLast? hb)).1

/-! ### Lines -/

lemma parse_line (hs : 0x0A ∉ s.bytes) (rest : List UInt8) :
    parseMetricsText N (line s ++ rest) =
      (parseLine N s.bytes).toList ++ parseMetricsText N rest := by
  rw [line, append_assoc, parseMetricsText, singleton_append,
    splitOn_append_cons_self, splitOn_eq_singleton hs, filterMap_append,
    parseMetricsText, filterMap_cons]
  rcases parseLine N s.bytes with _ | a
  · rfl
  · rfl

lemma parseLine_hash (l : List UInt8) : parseLine N (0x23 :: l) = none := by
  obtain ⟨l', hl'⟩ := exists_trimSpace_cons (b := 0x23) (by decide) (by decide) l
  have hhash : GoString.hasPrefix ⟨0x23 :: l'⟩ (.lit "#") = true :=
    isPrefixOf_iff_prefix.mpr ⟨l', rfl⟩
  rw [parseLine, hl']
  exact if_pos (.inr hhash)

lemma cutLast_eq {c : UInt8} {u v : List UInt8} (hv : c ∉ v) :
    cutLast c (u ++ c :: v) = some (u, v) := by
  have hne : ∀ b ∈ v.reverse, decide (b ≠ c) = true := fun b hb =>
    decide_eq_true fun heq => hv (heq ▸ mem_reverse.mp hb)
  have hreverse : (u ++ c :: v).reverse = v.reverse ++ c :: u.reverse := by simp
  rw [cutLast, hreverse, dropWhile_append_of_pos hne, takeWhile_append_of_pos hne,
    dropWhile_cons_of_neg (by simp), takeWhile_cons_of_neg (by simp)]
  simp

lemma parseLine_sample (hname : validName name = true) (ht : IsToken t) :
    parseLine N (name ++ .lit " " ++ t).bytes =
      (N.parseFloat t).map (MetricSample.mk name none) := by
  have hn := isToken_of_validName hname
  have hbytes : (name ++ .lit " " ++ t).bytes = name.bytes ++ 0x20 :: t.bytes := by
    rw [bytes_append, bytes_append, append_assoc]
    rfl
  obtain ⟨a, bs, hab⟩ := exists_cons_of_ne_nil hn.1
  have ha := of_mem_validName hname (hab ▸ mem_cons_self : a ∈ name.bytes)
  have htrim : GoString.trimSpace ⟨name.bytes ++ 0x20 :: t.bytes⟩ =
      ⟨name.bytes ++ 0x20 :: t.bytes⟩ := by
    refine trimSpace_eq_self (fun b hb => ?_) (fun b hb => ?_) fun b hb => ?_
    · rcases mem_append.mp hb with hb | hb
      · exact hn.ascii b hb
      · rcases mem_cons.mp hb with rfl | hb
        · decide
        · exact ht.ascii b hb
    · rw [hab] at hb
      cases hb
      exact ha.1
    · have hsplit : name.bytes ++ 0x20 :: t.bytes = (name.bytes ++ [0x20]) ++ t.bytes := by simp
      rw [hsplit, List.getLast?_append_of_ne_nil _ ht.1] at hb
      exact (ht.2 b (mem_of_getLast? hb)).1
  have hhash : GoString.hasPrefix ⟨name.bytes ++ 0x20 :: t.bytes⟩ (.lit "#") = false := by
    rw [GoString.hasPrefix, Bool.eq_false_iff, ne_eq, isPrefixOf_iff_prefix, hab]
    rintro ⟨rest, hrest⟩
    exact ha.2.2.2 (List.cons.inj hrest).1.symm
  have hline : (⟨name.bytes ++ 0x20 :: t.bytes⟩ : GoString) ≠ .lit "" := fun h => by
    have hnil := congrArg GoString.bytes h
    rw [hab] at hnil
    cases hnil
  have hempty : ∀ {u : GoString}, IsToken u → u ≠ .lit "" := fun hu h => hu.1 (by rw [h]; rfl)
  have hbrace : 0x7B ∉ name.bytes := fun hb => (of_mem_validName hname hb).2.2.1 rfl
  rw [hbytes, parseLine, htrim]
  simp only [hline, hhash, false_or, Bool.false_eq_true, if_false]
  rw [splitSampleLine, cutLast_eq (ht.notMem (by decide))]
  simp only [hn.trimSpace, ht.trimSpace, hempty hn, hempty ht, or_self, if_false, hbrace,
    not_false_eq_true, if_true]

lemma notMem_escapeHelp (s : GoString) : 0x0A ∉ (escapeHelp s).bytes := by
  intro h
  obtain ⟨b, -, hb⟩ := mem_flatMap.mp h
  split_ifs at hb with hbreak
  · exact absurd hb (by decide)
  · exact hbreak (mem_singleton.mp hb).symm

lemma parse_comment {p : GoString} (hp : p.bytes.head? = some 0x23 ∧ 0x0A ∉ p.bytes)
    (hname : 0x0A ∉ name.bytes) (hs : 0x0A ∉ s.bytes) (rest : List UInt8) :
    parseMetricsText N (line (p ++ name ++ .lit " " ++ s) ++ rest) = parseMetricsText N rest := by
  have hspace : (0x0A : UInt8) ∉ (GoString.lit " ").bytes := by decide
  obtain ⟨l, hl⟩ := List.head?_eq_some_iff.mp hp.1
  have hhash : (p ++ name ++ .lit " " ++ s).bytes =
      0x23 :: (l ++ name.bytes ++ (GoString.lit " ").bytes ++ s.bytes) := by
    simp only [bytes_append, hl, cons_append]
  rw [parse_line, hhash, parseLine_hash]
  · rfl
  · simp only [bytes_append, mem_append, not_or]
    exact ⟨⟨⟨hp.2, hname⟩, hspace⟩, hs⟩

lemma parse_write {m : Metric} (hname : validName m.name = true) (rest : List UInt8) :
    ∃ v, N.parseFloat (m.value.token N) = some v ∧
      parseMetricsText N (m.write N ++ rest) = ⟨m.name, none, v⟩ :: parseMetricsText N rest := by
  obtain ⟨v, hv⟩ := Option.isSome_iff_exists.mp (isSome_parseFloat_token (N := N) m.value)
  have hbreak : 0x0A ∉ m.name.bytes := (isToken_of_validName hname).notMem (by decide)
  have htoken := isToken_token (N := N) m.value
  have hvalue : 0x0A ∉ (m.name ++ .lit " " ++ m.value.token N).bytes := by
    have hspace : (0x0A : UInt8) ∉ (GoString.lit " ").bytes := by decide
    simp only [bytes_append, mem_append, not_or]
    exact ⟨⟨hbreak, hspace⟩, htoken.notMem (by decide)⟩
  have hkind : 0x0A ∉ m.value.kind.bytes := by
    have hkinds : (0x0A : UInt8) ∉ (GoString.lit "counter").bytes ∧
        (0x0A : UInt8) ∉ (GoString.lit "gauge").bytes := by decide
    rcases m.value with _ | _
    · exact hkinds.1
    · exact hkinds.2
  refine ⟨v, hv, ?_⟩
  rw [Metric.write, append_assoc, append_assoc]
  have htail : parseMetricsText N (line (.lit "# TYPE " ++ m.name ++ .lit " " ++ m.value.kind) ++
      (line (m.name ++ .lit " " ++ m.value.token N) ++ rest)) =
        ⟨m.name, none, v⟩ :: parseMetricsText N rest := by
    rw [parse_comment (by decide) hbreak hkind, parse_line hvalue, parseLine_sample hname htoken,
      hv]
    rfl
  split_ifs with hnone
  · exact htail
  · rw [parse_comment (by decide) hbreak (notMem_escapeHelp _), htail]

/-! ### Registries -/

/-- The registry after `names` have been registered. -/
structure Registered (names : List GoString) (r : Registry) : Prop where
  order : r.order = names.eraseDups
  mem : ∀ name, name ∈ r.metrics ↔ name ∈ names
  valid : ∀ name m, r.metrics.lookup name = some m → m.name = name ∧ validName name = true

lemma registered_newRegistry : Registered [] newRegistry where
  order := rfl
  mem name := by simp [newRegistry, notMem_empty]
  valid name m h := by
    rw [newRegistry, lookup_empty] at h
    cases h

namespace Registered

variable {names : List GoString}

variable (h : Registered names r)
include h

lemma register {zero : Value} {help : GoString}
    (hr : r.register zero name help = some r') : Registered (names ++ [name]) r' := by
  unfold Registry.register at hr
  rcases hname : r.metrics.lookup name with _ | m
  · rw [hname] at hr
    simp only at hr
    split_ifs at hr with hvalid
    cases hr
    have hnew : name ∉ names := fun hmem =>
      lookup_eq_none.mp hname ((h.mem name).mpr hmem)
    refine ⟨?_, fun name' => ?_, fun name' m hm => ?_⟩
    · rw [eraseDups_append, ← h.order]
      simp [List.removeAll, hnew, eraseDups_cons]
    · rw [mem_append, mem_singleton, ← h.mem, mem_insert, or_comm]
    · by_cases hne : name' = name
      · subst hne
        cases (lookup_insert _).symm.trans hm
        exact ⟨rfl, hvalid⟩
      · exact h.valid name' m ((lookup_insert_of_ne _ hne).symm.trans hm)
  · rw [hname] at hr
    simp only at hr
    split_ifs at hr
    cases hr
    have hold : name ∈ names := (h.mem name).mp (mem_of_lookup_eq_some hname)
    refine ⟨?_, fun name' => ?_, h.valid⟩
    · rw [eraseDups_append, ← h.order]
      simp [List.removeAll, hold]
    · rw [h.mem, mem_append, mem_singleton]
      exact ⟨.inl, fun hor => hor.elim id fun heq => heq ▸ hold⟩

lemma update (name : GoString) (f : Value → Value) : Registered names (r.update name f) := by
  unfold Registry.update
  rcases hname : r.metrics.lookup name with _ | m
  · exact h
  · have hmem : name ∈ r.metrics := mem_of_lookup_eq_some hname
    refine ⟨h.order, fun name' => ?_, fun name' m' hm => ?_⟩
    · rw [← h.mem, mem_insert]
      exact ⟨fun hor => hor.elim (fun heq => heq ▸ hmem) id, .inr⟩
    · by_cases hne : name' = name
      · subst hne
        cases (lookup_insert _).symm.trans hm
        exact h.valid name' m hname
      · exact h.valid name' m' ((lookup_insert_of_ne _ hne).symm.trans hm)

lemma step {op : Op} (hr : r.step op = some r') :
    Registered (names ++ op.registered.toList) r' := by
  rcases op with ⟨name, help⟩ | ⟨name, help⟩ | ⟨name, delta⟩ | ⟨name, bits⟩
  · exact h.register hr
  · exact h.register hr
  · cases hr
    exact (append_nil names).symm ▸ h.update name _
  · cases hr
    exact (append_nil names).symm ▸ h.update name _

lemma run {ops : List Op} (hr : ops.foldlM Registry.step r = some r') :
    Registered (names ++ ops.filterMap Op.registered) r' := by
  induction ops generalizing r names with
  | nil =>
    cases hr
    exact (append_nil names).symm ▸ h
  | cons op ops ih =>
    rw [foldlM_cons] at hr
    obtain ⟨r₁, hstep, hrest⟩ := Option.bind_eq_some_iff.mp hr
    have hrun := ih (h.step hstep) hrest
    rw [append_assoc] at hrun
    rw [filterMap_cons]
    generalize op.registered = o at hrun ⊢
    rcases o with _ | name
    · exact hrun
    · exact hrun

end Registered

def SampleOf (N : Numbers) (r : Registry) (name : GoString) (a : MetricSample) : Prop :=
  ∃ m, r.metrics.lookup name = some m ∧ a.name = name ∧ a.labels = none ∧
    N.parseFloat (m.value.token N) = some a.value

/-- Whatever was registered, with whatever help texts and values: the text that is rendered parses
back to one sample for every metric, in the order of the registrations, with the name of the metric,
without labels and with the number that is written for its value. -/
theorem parse_render (N : Numbers) (ops : List Op) (r : Registry)
    (hr : ops.foldlM Registry.step newRegistry = some r) :
    List.Forall₂ (SampleOf N r) (ops.filterMap Op.registered).eraseDups
      (parseMetricsText N (r.render N)) := by
  have h := registered_newRegistry.run hr
  rw [List.nil_append] at h
  have hnames : ∀ names : List GoString, (∀ name ∈ names, name ∈ r.metrics) →
      List.Forall₂ (SampleOf N r) names (parseMetricsText N
        (names.flatMap fun name => (r.metrics.lookup name).elim [] (Metric.write N))) := by
    intro names
    induction names with
    | nil => exact fun _ => .nil
    | cons name names ih =>
      intro hmem
      obtain ⟨hname, hmem⟩ := List.forall_mem_cons.mp hmem
      obtain ⟨m, hm⟩ := mem_iff.mp hname
      obtain ⟨heq, hvalid⟩ := h.valid name m hm
      obtain ⟨v, hv, hparse⟩ := parse_write (N := N) (m := m) (heq ▸ hvalid)
        (names.flatMap fun name => (r.metrics.lookup name).elim [] (Metric.write N))
      rw [List.flatMap_cons, hm, Option.elim_some, hparse]
      exact .cons ⟨m, hm, heq, rfl, hv⟩ (ih hmem)
  rw [Registry.render, h.order]
  exact hnames _ fun name hname => (h.mem name).mpr (List.mem_eraseDups.mp hname)

namespace Sample

/-- The numbers 5 and infinity, with their bits; all other ones are written and read as zero. -/
def numbers : Numbers where
  whole f := if f = 0x4014000000000000 then some 5 else some 0
  formatG _ := .lit "0"
  parseFloat s :=
    if s = .lit "5" then some 0x4014000000000000
    else if s = .lit "+Inf" then some 0x7FF0000000000000
    else some 0
  token_formatG _ := by
    unfold IsToken
    decide +kernel
  parse_uint _ := by
    split_ifs
    · rfl
    · rfl
    · rfl
  parse_float _ := by
    split_ifs
    · rfl
    · rfl
    · rfl

/-- A counter whose help text has two lines, and a gauge. -/
def ops : List Op :=
  [.counter (.lit "a_total") (.lit "one\n# two"), .gauge (.lit "b") (.lit ""),
    .add (.lit "a_total") 5, .set (.lit "b") 0x7FF0000000000000]

end Sample

open Sample

theorem parse_render_sample : ∃ r, ops.foldlM Registry.step newRegistry = some r ∧
    List.Forall₂ (SampleOf numbers r) [.lit "a_total", .lit "b"]
      (parseMetricsText numbers (r.render numbers)) ∧
    (parseMetricsText numbers (r.render numbers)).map MetricSample.value =
      [0x4014000000000000, 0x7FF0000000000000] := by
  obtain ⟨r, hr⟩ := Option.isSome_iff_exists.mp
    (by decide : (ops.foldlM Registry.step newRegistry).isSome = true)
  refine ⟨r, hr, parse_render numbers ops r hr, ?_⟩
  obtain rfl : r = (ops.foldlM Registry.step newRegistry).getD newRegistry := by
    rw [hr, Option.getD_some]
  decide +kernel

end Cerberus.Metrics
