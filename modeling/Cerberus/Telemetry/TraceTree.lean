import Cerberus.Foundation.Forest
import Cerberus.Foundation.GoString
import Cerberus.Foundation.Loop

/-!
# The tree of the spans of a trace

The assembler of `daemon/telemetry` (`tracetree.go`): exported spans, which name their parents, are
put together to trees for the renderer. The nodes are kept in a map by span id, and a pointer to a
node is here its key in the map. The map is iterated over in any order (`Traversal`).

The map does not know about trace ids, and a node that names a parent is no root even if no root is
above it. So spans may be hidden (`hidesNothing_iff`).
-/

namespace Cerberus.Telemetry

open Foundation List
open Finmap hiding mem_keys

structure Span where
  traceID : GoString
  spanID : GoString
  parentID : GoString
  name : GoString
  startNs : Int64
  endNs : Int64
  status : GoString
  attrs : Finmap fun _ : GoString => GoString

/-- `TreeNode`; the children are the keys of their nodes. -/
structure TreeNode where
  span : Span
  children : List GoString

/-- The map from span ids to nodes. -/
abbrev Nodes := Finmap fun _ : GoString => TreeNode

/-- The first loop of `AssembleTrees`. -/
def addSpan (nodes : Nodes) (s : Span) : Nodes :=
  if s.spanID = ⟨[]⟩ then nodes
  else if s.spanID ∈ nodes then nodes
  else nodes.insert s.spanID ⟨s, []⟩

/-- The second loop: a node is linked under its parent, or becomes a root. -/
def link (t : Nodes × List GoString) (id : GoString) : Nodes × List GoString :=
  match t.1.lookup id with
  | none => t
  | some n =>
    if n.span.parentID = ⟨[]⟩ then (t.1, t.2 ++ [id])
    else
      match t.1.lookup n.span.parentID with
      | some parent =>
        if n.span.parentID ≠ id then
          (t.1.insert n.span.parentID { parent with children := parent.children ++ [id] }, t.2)
        else (t.1, t.2 ++ [id])
      | none => (t.1, t.2 ++ [id])

def less (nodes : Nodes) (a b : GoString) : Bool :=
  match nodes.lookup a, nodes.lookup b with
  | some m, some n =>
    if m.span.startNs ≠ n.span.startNs then m.span.startNs < n.span.startNs
    else m.span.spanID < n.span.spanID
  | _, _ => false

def sortNodes (nodes : Nodes) (ids : List GoString) : List GoString :=
  ids.insertionSort fun a b => less nodes b a = false

def sortChildren (nodes : Nodes) (id : GoString) : Nodes :=
  match nodes.lookup id with
  | some n => nodes.insert id { n with children := sortNodes nodes n.children }
  | none => nodes

def assembleTrees (o o' : Traversal GoString) (spans : List Span) : Nodes × List GoString :=
  let nodes := spans.foldl addSpan ∅
  let linked := (o.enum nodes.keys).foldl link (nodes, [])
  ((o'.enum linked.1.keys).foldl sortChildren linked.1, sortNodes linked.1 linked.2)

/-- The references of a place in the trees. -/
def refs (t : Nodes × List GoString) : Option GoString → List GoString
  | none => t.2
  | some id => (t.1.lookup id).elim [] TreeNode.children

/-- `Flatten`, at most `n` levels deep. -/
def flattenTrees (t : Nodes × List GoString) (n : ℕ) : Option (List GoString) :=
  flatten (refs t) n

/-! ### Which spans are kept, and where they are put -/

/-- The span that the map keeps under an id. -/
def kept (spans : List Span) (id : GoString) : Option Span := spans.find? fun s => s.spanID = id

def spanOf (nodes : Nodes) (id : GoString) : Option Span := (nodes.lookup id).map TreeNode.span

/-- The parent under which a node is put, none for a root. -/
def place (spanOf : GoString → Option Span) (id : GoString) : Option GoString :=
  (spanOf id).bind fun s =>
    if s.parentID ≠ ⟨[]⟩ ∧ (spanOf s.parentID).isSome = true ∧ s.parentID ≠ id then some s.parentID
    else none

variable {o o' : Traversal GoString} {spans : List Span} {nodes : Nodes} {t : Nodes × List GoString}
  {id : GoString}

lemma mem_iff_isSome_spanOf : id ∈ nodes ↔ (spanOf nodes id).isSome = true := by
  rw [spanOf, Option.isSome_map, lookup_isSome]

lemma lookup_addSpans (hids : ∀ s ∈ spans, s.spanID ≠ ⟨[]⟩) (nodes : Nodes) (id : GoString) :
    (spans.foldl addSpan nodes).lookup id =
      (nodes.lookup id).or ((kept spans id).map (TreeNode.mk · [])) := by
  induction spans generalizing nodes with
  | nil => exact Option.or_none.symm
  | cons s spans ih =>
    obtain ⟨hs, hids⟩ := forall_mem_cons.mp hids
    rw [foldl_cons, ih hids, addSpan, if_neg hs, kept.eq_def (s :: spans), List.find?_cons]
    by_cases heq : s.spanID = id
    · subst heq
      simp only [decide_true, Option.map_some]
      split_ifs with hdup
      · obtain ⟨n, hn⟩ := mem_iff.mp hdup
        rw [hn, Option.some_or, Option.some_or]
      · rw [lookup_insert, lookup_eq_none.mpr hdup]
        rfl
    · simp only [heq, decide_false]
      split_ifs with hdup
      · rfl
      · rw [lookup_insert_of_ne _ (Ne.symm heq)]
        rfl

variable {n : TreeNode} {out : List GoString}

lemma place_eq (hn : t.1.lookup id = some n) :
    place (spanOf t.1) id =
      if n.span.parentID ≠ ⟨[]⟩ ∧ n.span.parentID ∈ t.1 ∧ n.span.parentID ≠ id then
        some n.span.parentID
      else none := by
  rw [place, spanOf, hn, Option.map_some, Option.bind_some]
  simp only [← mem_iff_isSome_spanOf]

lemma refs_root (t : Nodes × List GoString) (id : GoString) (p : Option GoString) :
    refs (t.1, t.2 ++ [id]) p = refs t p ++ if p = none then [id] else [] := by
  rcases p with _ | a
  · rfl
  · exact (append_nil _).symm

lemma refs_child {a : GoString} {parent : TreeNode} (ha : t.1.lookup a = some parent)
    (id : GoString) (p : Option GoString) :
    refs (t.1.insert a { parent with children := parent.children ++ [id] }, t.2) p =
      refs t p ++ if p = some a then [id] else [] := by
  rcases p with _ | b
  · exact (append_nil _).symm
  · by_cases hb : b = a
    · subst hb
      rw [refs, lookup_insert, refs, ha, if_pos rfl]
      rfl
    · rw [refs, lookup_insert_of_ne _ hb, if_neg fun h => hb (Option.some.inj h),
        append_nil]
      rfl

lemma spanOf_insert (hn : nodes.lookup id = some n) (children : List GoString) :
    spanOf (nodes.insert id { n with children := children }) = spanOf nodes := by
  funext a
  by_cases ha : a = id
  · subst ha
    rw [spanOf, lookup_insert, spanOf, hn]
    rfl
  · rw [spanOf, lookup_insert_of_ne _ ha, spanOf]

lemma link_spec (hid : id ∈ t.1) : spanOf (link t id).1 = spanOf t.1 ∧
    ∀ p, refs (link t id) p = refs t p ++ if p = place (spanOf t.1) id then [id] else [] := by
  obtain ⟨n, hn⟩ := mem_iff.mp hid
  rw [place_eq hn, link, hn]
  simp only
  by_cases hroot : n.span.parentID = ⟨[]⟩
  · rw [if_pos hroot, if_neg fun h => h.1 hroot]
    exact ⟨rfl, refs_root t id⟩
  rw [if_neg hroot]
  rcases hparent : t.1.lookup n.span.parentID with _ | parent
  · rw [if_neg fun h => lookup_eq_none.mp hparent h.2.1]
    exact ⟨rfl, refs_root t id⟩
  simp only
  by_cases hself : n.span.parentID = id
  · rw [if_neg (not_not.mpr hself), if_neg fun h => h.2.2 hself]
    exact ⟨rfl, refs_root t id⟩
  · rw [if_pos hself, if_pos ⟨hroot, mem_of_lookup_eq_some hparent, hself⟩]
    exact ⟨spanOf_insert hparent _, refs_child hparent id⟩

lemma links_spec {ids : List GoString} (hids : ∀ id ∈ ids, id ∈ t.1) :
    spanOf (ids.foldl link t).1 = spanOf t.1 ∧ ∀ p,
      refs (ids.foldl link t) p = refs t p ++ ids.filter (p = place (spanOf t.1) ·) := by
  induction ids generalizing t with
  | nil => exact ⟨rfl, fun p => (append_nil _).symm⟩
  | cons id ids ih =>
    obtain ⟨hid, hids⟩ := forall_mem_cons.mp hids
    obtain ⟨hspan, hrefs⟩ := link_spec hid
    have hmem : ∀ a, a ∈ (link t id).1 ↔ a ∈ t.1 := fun a => by
      rw [mem_iff_isSome_spanOf, hspan, ← mem_iff_isSome_spanOf]
    obtain ⟨hspans, hall⟩ := ih fun a ha => (hmem a).mpr (hids a ha)
    rw [foldl_cons, hspans, hspan]
    refine ⟨rfl, fun p => ?_⟩
    rw [hall, hrefs, hspan, append_assoc, filter_cons]
    by_cases hp : p = place (spanOf t.1) id
    · simp [hp]
    · simp [hp]

lemma sortChildren_spec (nodes : Nodes) (roots : List GoString) (id : GoString) :
    spanOf (sortChildren nodes id) = spanOf nodes ∧
      ∀ p, (refs (sortChildren nodes id, roots) p).Perm (refs (nodes, roots) p) := by
  rcases hn : nodes.lookup id with _ | n
  · rw [sortChildren, hn]
    exact ⟨rfl, fun p => .refl _⟩
  · rw [sortChildren, hn]
    refine ⟨spanOf_insert hn _, fun p => ?_⟩
    rcases p with _ | a
    · exact .refl _
    · by_cases ha : a = id
      · subst ha
        rw [refs, lookup_insert, refs, hn]
        exact perm_insertionSort _ _
      · rw [refs, lookup_insert_of_ne _ ha]
        exact .refl _

lemma sortAll_spec (ids : List GoString) (nodes : Nodes) (roots : List GoString) :
    spanOf (ids.foldl sortChildren nodes) = spanOf nodes ∧
      ∀ p, (refs (ids.foldl sortChildren nodes, roots) p).Perm (refs (nodes, roots) p) := by
  induction ids generalizing nodes with
  | nil => exact ⟨rfl, fun p => .refl _⟩
  | cons id ids ih =>
    obtain ⟨hspan, hperm⟩ := sortChildren_spec nodes roots id
    obtain ⟨hspans, hperms⟩ := ih (sortChildren nodes id)
    exact ⟨hspans.trans hspan, fun p => (hperms p).trans (hperm p)⟩

lemma assembleTrees_spec (o o' : Traversal GoString) (hids : ∀ s ∈ spans, s.spanID ≠ ⟨[]⟩) :
    spanOf (assembleTrees o o' spans).1 = kept spans ∧ ∀ p,
      (refs (assembleTrees o o' spans) p).Nodup ∧
      ∀ id, id ∈ refs (assembleTrees o o' spans) p ↔
        (kept spans id).isSome = true ∧ p = place (kept spans) id := by
  have hlookup := fun id => lookup_addSpans hids ∅ id
  obtain ⟨nodes, hnodes⟩ : ∃ nodes, spans.foldl addSpan ∅ = nodes := ⟨_, rfl⟩
  rw [hnodes] at hlookup
  have hkept : spanOf nodes = kept spans := by
    funext id
    rw [spanOf, hlookup, lookup_empty, Option.none_or, Option.map_map]
    exact Option.map_id'
  have hmem : ∀ id, id ∈ o.enum nodes.keys ↔ id ∈ nodes := fun id => by
    rw [o.mem_enum, Finmap.mem_keys]
  have hnodup := o.nodup_enum nodes.keys
  have hempty : ∀ p, refs (nodes, []) p = [] := by
    rintro (_ | a)
    · rfl
    · rw [refs, hlookup, lookup_empty, Option.none_or]
      rcases kept spans a with _ | s
      · rfl
      · rfl
  obtain ⟨hspan, hrefs⟩ := links_spec (t := (nodes, [])) fun id hid => (hmem id).mp hid
  obtain ⟨linked, hlinked⟩ : ∃ t, (o.enum nodes.keys).foldl link (nodes, []) = t := ⟨_, rfl⟩
  rw [hlinked] at hspan hrefs
  have hsorted := sortAll_spec (o'.enum linked.1.keys) linked.1 (sortNodes linked.1 linked.2)
  have hroots : ∀ p, (refs (linked.1, sortNodes linked.1 linked.2) p).Perm (refs linked p) := by
    rintro (_ | a)
    · exact perm_insertionSort _ _
    · exact .refl _
  have htrees : assembleTrees o o' spans = ((o'.enum linked.1.keys).foldl sortChildren linked.1,
      sortNodes linked.1 linked.2) := by
    rw [assembleTrees, hnodes]
    simp only [hlinked]
  rw [htrees]
  refine ⟨hsorted.1.trans (hspan.trans hkept), fun p => ?_⟩
  have hperm := (hsorted.2 p).trans (hroots p)
  rw [hrefs, hempty, nil_append, hkept] at hperm
  refine ⟨hperm.nodup_iff.mpr (hnodup.filter _), fun id => ?_⟩
  rw [hperm.mem_iff, mem_filter, hmem, mem_iff_isSome_spanOf, hkept, decide_eq_true_eq]

/-! ### What is shown -/

/-- The spans that a flattened tree shows. -/
def shown (nodes : Nodes) (out : List GoString) : List (GoString × GoString) :=
  out.filterMap fun id => (spanOf nodes id).map fun s => (s.traceID, s.spanID)

/-- Every span is shown once. -/
def HidesNothing (spans : List Span) (nodes : Nodes) (out : List GoString) : Prop :=
  ∀ s ∈ spans, (shown nodes out).count (s.traceID, s.spanID) = 1

/-- Every child names its parent. -/
def NamesParents (t : Nodes × List GoString) : Prop :=
  ∀ x y, x ∈ refs t (some y) →
    ∃ s s', spanOf t.1 x = some s ∧ spanOf t.1 y = some s' ∧ s.parentID = s'.spanID

/-- No span id is used in two traces. -/
def DistinctIDs (spans : List Span) : Prop :=
  ∀ s ∈ spans, ∀ s' ∈ spans, s.spanID = s'.spanID → s.traceID = s'.traceID

/-- The span names the other one as its parent. -/
def Under (spans : List Span) (x y : GoString) : Prop :=
  ∃ s, kept spans x = some s ∧ s.parentID = y ∧ y ≠ x ∧ (kept spans y).isSome = true

lemma spanID_of_kept {s : Span} (h : kept spans id = some s) : s ∈ spans ∧ s.spanID = id := by
  refine ⟨mem_of_find?_eq_some h, ?_⟩
  have hid := List.find?_some h
  rwa [decide_eq_true_eq] at hid

lemma kept_isSome_iff : (kept spans id).isSome = true ↔ ∃ s ∈ spans, s.spanID = id := by
  rw [kept, List.find?_isSome]
  simp only [decide_eq_true_eq]

lemma under_iff (hids : ∀ s ∈ spans, s.spanID ≠ ⟨[]⟩) {x y : GoString} :
    (kept spans x).isSome = true ∧ some y = place (kept spans) x ↔ Under spans x y := by
  rw [place]
  rcases hx : kept spans x with _ | s
  · simp [Under, hx]
  · simp only [Option.isSome_some, true_and, Option.bind_some, Under, hx, Option.some.injEq,
      exists_eq_left']
    constructor
    · intro h
      split_ifs at h with hplace
      cases h
      exact ⟨rfl, hplace.2.2, hplace.2.1⟩
    · rintro ⟨rfl, hne, hsome⟩
      obtain ⟨s', hs', hid⟩ := kept_isSome_iff.mp hsome
      rw [if_pos ⟨hid ▸ hids s' hs', hsome, hne⟩]

lemma exists_view (o o' : Traversal GoString) (hids : ∀ s ∈ spans, s.spanID ≠ ⟨[]⟩) : ∃ out,
    (∀ n, spans.length ≤ n → flattenTrees (assembleTrees o o' spans) n = some out) ∧
      out.Nodup ∧ ((∀ id, (kept spans id).isSome = true → id ∈ out) ↔
        ∀ id, ¬ Relation.TransGen (Under spans) id id) := by
  obtain ⟨-, hrefs⟩ := assembleTrees_spec o o' hids
  obtain ⟨next, hnext⟩ : ∃ next, refs (assembleTrees o o' spans) = next := ⟨_, rfl⟩
  rw [hnext] at hrefs
  have hforest : IsForest next := by
    refine ⟨fun p => (hrefs p).1, fun {p p' a} ha ha' => ?_⟩
    rw [(((hrefs p).2 a).mp ha).2, (((hrefs p').2 a).mp ha').2]
  let S : Finset GoString := (spans.map Span.spanID).toFinset
  have hmem : ∀ id, id ∈ S ↔ (kept spans id).isSome = true := fun id => by
    rw [mem_toFinset, mem_map, kept_isSome_iff]
  have hS : ∀ p, ∀ a ∈ next p, a ∈ S := fun p a ha => (hmem a).mpr (((hrefs p).2 a).mp ha).1
  have hcard : S.card ≤ spans.length := (toFinset_card_le _).trans_eq (length_map _)
  obtain ⟨out, hout, hnodup, hlisted⟩ := hforest.flatten_spec hS
  refine ⟨out, fun n hn => ?_, hnodup, ?_⟩
  · rw [flattenTrees, hnext]
    exact hout n (hcard.trans hn)
  · have hunder : (fun x y => x ∈ next (some y)) = Under spans := by
      funext x y
      exact propext (((hrefs (some y)).2 x).trans (under_iff hids))
    have hup : ∀ a ∈ S, ∃ p, a ∈ next p ∧ ∀ b ∈ p, b ∈ S := by
      intro a ha
      refine ⟨place (kept spans) a, ((hrefs _).2 a).mpr ⟨(hmem a).mp ha, rfl⟩, fun b hb => ?_⟩
      obtain ⟨-, -, -, -, hsome⟩ := (under_iff hids).mp ⟨(hmem a).mp ha, hb.symm⟩
      exact (hmem b).mpr hsome
    rw [← hunder, ← hforest.forall_descent_iff hS hup]
    simp only [hlisted, hmem]

section

variable (hkept : spanOf nodes = kept spans)
include hkept

lemma mem_shown {tid id : GoString} :
    (tid, id) ∈ shown nodes out ↔ id ∈ out ∧ ∃ s, kept spans id = some s ∧ s.traceID = tid := by
  rw [shown, hkept, mem_filterMap]
  constructor
  · rintro ⟨id', hid', h⟩
    obtain ⟨s, hs, heq⟩ := Option.map_eq_some_iff.mp h
    obtain rfl : id' = id := (spanID_of_kept hs).2.symm.trans (congrArg Prod.snd heq)
    exact ⟨hid', s, hs, congrArg Prod.fst heq⟩
  · rintro ⟨hid, s, hs, rfl⟩
    refine ⟨id, hid, ?_⟩
    rw [hs, Option.map_some, (spanID_of_kept hs).2]

lemma nodup_shown (hout : out.Nodup) : (shown nodes out).Nodup := by
  refine List.Nodup.filterMap (fun a a' b hb hb' => ?_) hout
  rw [hkept] at hb hb'
  obtain ⟨s, hs, rfl⟩ := Option.map_eq_some_iff.mp hb
  obtain ⟨s', hs', heq⟩ := Option.map_eq_some_iff.mp hb'
  exact (spanID_of_kept hs).2.symm.trans ((congrArg Prod.snd heq).symm.trans (spanID_of_kept hs').2)

lemma hidesNothing_iff_forall_mem (hout : out.Nodup) :
    HidesNothing spans nodes out ↔
      DistinctIDs spans ∧ ∀ id, (kept spans id).isSome = true → id ∈ out := by
  constructor
  · intro h
    have hshown : ∀ s ∈ spans, s.spanID ∈ out ∧
        ∃ s', kept spans s.spanID = some s' ∧ s'.traceID = s.traceID := fun s hs =>
      (mem_shown hkept).mp (count_pos_iff.mp (h s hs ▸ Nat.one_pos))
    refine ⟨fun s hs s' hs' heq => ?_, fun id hid => ?_⟩
    · obtain ⟨-, u, hu, htrace⟩ := hshown s hs
      obtain ⟨-, u', hu', htrace'⟩ := hshown s' hs'
      rw [heq, hu'] at hu
      cases hu
      exact htrace.symm.trans htrace'
    · obtain ⟨s, hs, rfl⟩ := kept_isSome_iff.mp hid
      exact (hshown s hs).1
  · rintro ⟨hdistinct, hall⟩ s hs
    have hsome := kept_isSome_iff.mpr ⟨s, hs, rfl⟩
    obtain ⟨s', hs'⟩ := Option.isSome_iff_exists.mp hsome
    obtain ⟨hmem, hid⟩ := spanID_of_kept hs'
    have hshown := (mem_shown hkept).mpr ⟨hall _ hsome, s', hs', hdistinct s' hmem s hs hid⟩
    exact count_eq_one_of_mem (nodup_shown hkept hout) hshown

end

/-- Every child that is shown under a node is of the same trace. -/
def KeepsTraces (t : Nodes × List GoString) (out : List GoString) : Prop :=
  ∀ y ∈ out, ∀ x ∈ refs t (some y),
    (spanOf t.1 x).map Span.traceID = (spanOf t.1 y).map Span.traceID

/-- For every list of spans with ids and every order of iteration, `Flatten` ends; every child names
its parent; every span is shown by one node iff no span id is used in two traces and no span
is above itself; and besides this every child is of the trace of its parent iff no span
names one of another trace as its parent. -/
theorem hidesNothing_iff (o o' : Traversal GoString) (spans : List Span)
    (hids : ∀ s ∈ spans, s.spanID ≠ ⟨[]⟩) : ∃ out,
    (∀ n, spans.length ≤ n → flattenTrees (assembleTrees o o' spans) n = some out) ∧
      NamesParents (assembleTrees o o' spans) ∧
      (HidesNothing spans (assembleTrees o o' spans).1 out ↔
        DistinctIDs spans ∧ ∀ id, ¬ Relation.TransGen (Under spans) id id) ∧
      (HidesNothing spans (assembleTrees o o' spans).1 out ∧
          KeepsTraces (assembleTrees o o' spans) out ↔
        DistinctIDs spans ∧ (∀ id, ¬ Relation.TransGen (Under spans) id id) ∧
          ∀ x y, Under spans x y →
            (kept spans x).map Span.traceID = (kept spans y).map Span.traceID) := by
  obtain ⟨out, hout, hnodup, hall⟩ := exists_view o o' hids
  obtain ⟨hkept, hrefs⟩ := assembleTrees_spec o o' hids
  have hunder : ∀ x y, x ∈ refs (assembleTrees o o' spans) (some y) ↔ Under spans x y :=
    fun x y => ((hrefs (some y)).2 x).trans (under_iff hids)
  have hhides := (hidesNothing_iff_forall_mem hkept hnodup).trans (and_congr_right' hall)
  refine ⟨out, hout, fun x y hxy => ?_, hhides, ?_⟩
  · obtain ⟨s, hs, rfl, -, hsome⟩ := (hunder x y).mp hxy
    obtain ⟨s', hs'⟩ := Option.isSome_iff_exists.mp hsome
    rw [hkept]
    exact ⟨s, s', hs, hs', (spanID_of_kept hs').2.symm⟩
  · rw [← and_assoc, ← hhides, KeepsTraces, hkept]
    refine and_congr_right fun h => ⟨fun htraces x y hxy => ?_, fun htraces y _ x hxy => ?_⟩
    · obtain ⟨-, -, -, -, hsome⟩ := id hxy
      have hmem := ((hidesNothing_iff_forall_mem hkept hnodup).mp h).2 y hsome
      exact htraces y hmem x ((hunder x y).mpr hxy)
    · exact htraces x y ((hunder x y).mp hxy)

namespace Sample

def order : Traversal GoString := ⟨fun ids => ids.sort (· ≤ ·), fun ids => ids.sort_eq _⟩

def span (traceID spanID parentID : String) : Span :=
  ⟨.lit traceID, .lit spanID, .lit parentID, .lit "", 0, 0, .lit "", ∅⟩

end Sample

open Sample

/-- A trace of a span and its child is shown. -/
theorem child_shown : ∃ out,
    (∀ n, 2 ≤ n → flattenTrees (assembleTrees order order
        [span "t" "b" "a", span "t" "a" ""]) n = some out) ∧
      HidesNothing [span "t" "b" "a", span "t" "a" ""]
        (assembleTrees order order
          [span "t" "b" "a", span "t" "a" ""]).1 out := by
  obtain ⟨out, hout, -, hhides, -⟩ := hidesNothing_iff order order
    [span "t" "b" "a", span "t" "a" ""] (by decide)
  refine ⟨out, hout, hhides.mpr ⟨by unfold DistinctIDs; decide, fun id hcycle => ?_⟩⟩
  -- only `b` is under another span, and nothing is under it
  have hparent : ∀ {x y}, Under [span "t" "b" "a", span "t" "a" ""] x y →
      x = .lit "b" ∧ y = .lit "a" := by
    rintro x y ⟨s, hs, rfl, -, hsome⟩
    obtain ⟨hmem, rfl⟩ := spanID_of_kept hs
    rcases List.mem_pair.mp hmem with rfl | rfl
    · exact ⟨rfl, rfl⟩
    · cases hsome
  obtain ⟨y, hy, -⟩ := Relation.TransGen.head'_iff.mp hcycle
  obtain ⟨x, -, hx⟩ := Relation.TransGen.tail'_iff.mp hcycle
  exact absurd ((hparent hy).1.symm.trans (hparent hx).2) (by decide)

/-- The root spans of two traces have the same id, and the second one is hidden; and two spans that
name each other as parents are both hidden. -/
theorem span_hidden :
    (∃ out, (∀ n, 2 ≤ n → flattenTrees (assembleTrees order order
        [span "t" "a" "", span "u" "a" ""]) n = some out) ∧
      ¬ HidesNothing [span "t" "a" "", span "u" "a" ""]
        (assembleTrees order order
          [span "t" "a" "", span "u" "a" ""]).1 out) ∧
    ∃ out, (∀ n, 2 ≤ n → flattenTrees (assembleTrees order order
        [span "t" "a" "b", span "t" "b" "a"]) n = some out) ∧
      ¬ HidesNothing [span "t" "a" "b", span "t" "b" "a"]
        (assembleTrees order order
          [span "t" "a" "b", span "t" "b" "a"]).1 out := by
  refine ⟨?_, ?_⟩
  · have hids : ∀ s ∈ [span "t" "a" "", span "u" "a" ""], s.spanID ≠ ⟨[]⟩ := by decide
    obtain ⟨out, hout, hnodup, -⟩ := exists_view order order hids
    refine ⟨out, hout, fun h => ?_⟩
    have hkept := (assembleTrees_spec order order hids).1
    have hdistinct := ((hidesNothing_iff_forall_mem hkept hnodup).mp h).1
    exact absurd (hdistinct _ List.mem_cons_self _ (List.mem_cons_of_mem _ List.mem_cons_self) rfl)
      (by decide)
  · have hids : ∀ s ∈ [span "t" "a" "b", span "t" "b" "a"], s.spanID ≠ ⟨[]⟩ := by
      decide
    obtain ⟨out, hout, hnodup, hall⟩ := exists_view order order hids
    refine ⟨out, hout, fun h => ?_⟩
    have hkept := (assembleTrees_spec order order hids).1
    have hmem := ((hidesNothing_iff_forall_mem hkept hnodup).mp h).2
    refine hall.mp hmem (.lit "a") (.tail (.single ⟨_, rfl, rfl, ?_, rfl⟩) ⟨_, rfl, rfl, ?_, rfl⟩)
    · decide
    · decide

end Cerberus.Telemetry
